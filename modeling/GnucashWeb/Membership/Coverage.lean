import GnucashWeb.Membership.Dues
import Mathlib.Data.List.Induction

/-!
# Dues cover no day twice

A payment without an explicit period covers no day of the dated payments that its request read, but
for a calendar-year payment of a member who is paid through part of that year, which covers the
whole year.  When every request still finds the payments that it read, no two payments of a member
share a day but for those (`coverage_of_run`).
-/

namespace Membership

open Civil Sessions Runs

/-! ## Days -/

theorem addDays_one (date : ℤ) : addDays date 1 = date + 1 := by
  rw [addDays, newDate_add, fields_newDate]

theorem newDate_first (y : ℤ) : newDate y 0 1 = yearStart y := by
  rw [newDate_of_mem (by decide), monthStart_zero]
  omega

theorem newDate_last (y : ℤ) : newDate y 11 31 = yearStart (y + 1) - 1 := by
  have htwelve := monthStart_twelve_eq y
  rw [newDate_of_mem (by decide)]
  unfold monthStart at htwelve ⊢
  split_ifs at htwelve ⊢ <;> omega

theorem yearStart_lt_succ (y : ℤ) : yearStart y + 365 ≤ yearStart (y + 1) := by
  unfold yearStart
  omega

theorem le_addOneYearMinusDay (date : ℤ) : date ≤ addOneYearMinusDay date := by
  have hfields := fields_newDate date
  have hmonth := getMonth_mem date
  have hyear := yearStart_lt_succ (getFullYear date)
  rw [newDate_of_mem hmonth] at hfields
  rw [addOneYearMinusDay, newDate_of_mem hmonth]
  unfold monthStart at hfields ⊢
  split_ifs at hfields ⊢ <;> omega

/-- A day is the last of some ends of periods; there is none when no period ends. -/
def LastEnd (ends : List (Option ℤ)) (last : Option ℤ) : Prop :=
  (∀ t, last = some t → some t ∈ ends) ∧ ∀ d, some d ∈ ends → ∃ t, last = some t ∧ d ≤ t

theorem lastEnd_derivePaidThrough (ends : List (Option ℤ)) :
    LastEnd ends (derivePaidThrough ends).1 := by
  unfold derivePaidThrough
  induction ends using List.reverseRecOn with
  | nil => exact ⟨fun _ h => (by cases h), fun _ h => absurd h List.not_mem_nil⟩
  | append_singleton ends e ih =>
    rw [List.foldl_append, List.foldl_cons, List.foldl_nil]
    generalize ends.foldl notePeriodEnd (none, false) = state at ih
    obtain ⟨hmem, hmax⟩ := ih
    cases e with
    | none =>
      refine ⟨fun t ht => List.mem_append_left _ (hmem t ht), fun d hd => hmax d ?_⟩
      simpa using hd
    | some day =>
      have hstate : (notePeriodEnd state (some day)).1 = some (state.1.elim day (max day)) := rfl
      rw [hstate]
      cases hlast : state.1 with
      | none =>
        refine ⟨fun t ht => by simp_all, fun d hd => ⟨day, rfl, ?_⟩⟩
        rcases List.mem_append.1 hd with hd | hd
        · obtain ⟨t, ht, -⟩ := hmax d hd
          rw [hlast] at ht
          cases ht
        · simp_all
      | some last =>
        refine ⟨fun t ht => ?_, fun d hd => ⟨max day last, rfl, ?_⟩⟩
        · obtain rfl : max day last = t := Option.some.inj ht
          rcases (by omega : max day last = day ∨ max day last = last) with h | h
          · simp [h]
          · rw [h]
            exact List.mem_append_left _ (hmem last hlast)
        · rcases List.mem_append.1 hd with hd | hd
          · obtain ⟨t, ht, hle⟩ := hmax d hd
            rw [hlast] at ht
            obtain rfl := Option.some.inj ht
            omega
          · obtain rfl : d = day := by simpa using hd
            omega

/-! ## Coverage -/

def Payment.Covers (p : Payment) (day : ℤ) : Prop :=
  p.periodStart ≤ day ∧ ∀ last ∈ p.periodEnd, day ≤ last

/-- No day is covered by both of two payments. -/
def Apart (p q : Payment) : Prop := ∀ day, ¬(p.Covers day ∧ q.Covers day)

/-- A period that ends does not end before it begins. -/
def Ordered (p : Payment) : Prop := ∀ last ∈ p.periodEnd, p.periodStart ≤ last

/-- A member is paid through a day of the paid year before its last. -/
def PartOfYear (paidDate : ℤ) (paidThrough : Option ℤ) : Prop :=
  ∃ t ∈ paidThrough, thisYearStart paidDate ≤ t ∧ t < thisYearEnd paidDate

instance (paidDate : ℤ) (paidThrough : Option ℤ) : Decidable (PartOfYear paidDate paidThrough) :=
  inferInstanceAs (Decidable (∃ t ∈ paidThrough, _))

def Recorded.paidThrough (r : Recorded) : Option ℤ :=
  (derivePaidThrough (r.seen.map Payment.periodEnd)).1

/-- A calendar-year payment of a member who is paid through part of that year. -/
def Recorded.RepaysYear (r : Recorded) : Prop :=
  r.mode = .calendarYear ∧ PartOfYear r.input.paidDate r.paidThrough

/-- The period of a dated payment against the last paid day: it begins after that day, unless the
payment is for a year that is paid in part, and then that day lies in it. -/
theorem period_of_paidThrough {mode : RenewalMode} (hmode : mode ≠ .lifetime) (paidDate : ℤ)
    (paidThrough : Option ℤ) :
    ∃ start last, computeMembershipPeriod mode paidDate paidThrough = ⟨start, some last⟩ ∧
      start ≤ last ∧ ∀ t ∈ paidThrough,
        if mode = .calendarYear ∧ PartOfYear paidDate paidThrough then start ≤ t ∧ t ≤ last
        else t < start := by
  cases mode with
  | lifetime => exact absurd rfl hmode
  | anniversary =>
    refine ⟨_, _, rfl, le_addOneYearMinusDay _, ?_⟩
    rintro t rfl
    rw [if_neg (by simp), anniversaryStart, addDays_one]
    split <;> omega
  | calendarYear =>
    refine ⟨_, _, rfl, ?_, ?_⟩
    · have hyear := yearStart_lt_succ (targetYear paidDate paidThrough)
      rw [newDate_first, newDate_last]
      omega
    rintro t rfl
    have hspec := getFullYear_spec t
    have hpart : PartOfYear paidDate (some t) ↔
        yearStart (getFullYear paidDate) ≤ t ∧ t < yearStart (getFullYear paidDate + 1) - 1 := by
      simp [PartOfYear, thisYearStart, thisYearEnd, newDate_first, newDate_last]
    rw [newDate_first, newDate_last, targetYear, thisYearEnd, newDate_last]
    simp only [true_and, hpart]
    split_ifs <;> omega

/-- What a request that recorded a payment read and computed. -/
structure RecordOk (r : Recorded) : Prop where
  seen : ∀ p ∈ r.seen, Ordered p
  paidDate : r.payment.paidDate = r.input.paidDate
  period : resolvePaymentPeriod r.mode r.input.paidDate r.paidThrough r.input.override =
    .ok ⟨r.payment.periodStart, r.payment.periodEnd⟩

variable {r : Recorded}

theorem RecordOk.computed (h : RecordOk r) (hplain : r.input.periodStart = none) :
    computeMembershipPeriod r.mode r.input.paidDate r.paidThrough =
      ⟨r.payment.periodStart, r.payment.periodEnd⟩ := by
  have hnone : r.input.override = none := by rw [PaymentInput.override, hplain, Option.map_none]
  have hperiod := h.period
  rw [hnone] at hperiod
  exact Except.ok.inj hperiod

/-- A dated payment covers no day of the dated payments that its request read, unless it pays again
for a year that is paid in part. -/
theorem RecordOk.apart_iff (h : RecordOk r) (hplain : r.input.periodStart = none)
    (hdated : r.payment.periodEnd ≠ none) :
    (∀ p ∈ r.seen, p.periodEnd ≠ none → Apart p r.payment) ↔ ¬r.RepaysYear := by
  have hcomputed := h.computed hplain
  have hmode : r.mode ≠ .lifetime := by
    intro hmode
    rw [hmode] at hcomputed
    exact hdated (congrArg MembershipPeriod.periodEnd hcomputed).symm
  obtain ⟨start, last, hperiod, hle, hthrough⟩ :=
    period_of_paidThrough hmode r.input.paidDate r.paidThrough
  obtain ⟨hstart, hend⟩ := MembershipPeriod.mk.inj (hcomputed.symm.trans hperiod)
  obtain ⟨hmem, hmax⟩ := lastEnd_derivePaidThrough (r.seen.map Payment.periodEnd)
  constructor
  · intro hapart hrepays
    obtain ⟨t, ht, -⟩ := hrepays.2
    have hin := hthrough t ht
    rw [if_pos (show _ ∧ _ from hrepays)] at hin
    obtain ⟨p, hp, hpend⟩ := List.mem_map.1 (hmem t ht)
    refine hapart p hp (by simp [hpend]) t ⟨⟨h.seen p hp t hpend, fun e he => ?_⟩, ?_, fun e he => ?_⟩
    · rw [hpend] at he
      exact Int.le_of_eq (Option.some.inj he)
    · exact hstart ▸ hin.1
    · rw [hend] at he
      exact (Option.some.inj he) ▸ hin.2
  · rintro hrepays p hp hpend day ⟨hpcovers, hcovers⟩
    obtain ⟨e, he⟩ := Option.ne_none_iff_exists'.1 hpend
    obtain ⟨t, ht, het⟩ := hmax e (List.mem_map.2 ⟨p, hp, he⟩)
    have hafter := hthrough t ht
    rw [if_neg (show ¬(_ ∧ _) from hrepays)] at hafter
    have hday := hpcovers.2 e he
    have hfirst := hcovers.1
    omega

/-- A payment of a member who is still paid through begins on the next day in the cases that the
renewal modes extend from that day. -/
theorem RecordOk.begins_iff (h : RecordOk r) (hplain : r.input.periodStart = none) {t : ℤ}
    (ht : r.paidThrough = some t) (hpaid : r.payment.paidDate ≤ t) :
    r.payment.periodStart = t + 1 ↔
      r.mode = .anniversary ∨ r.mode = .calendarYear ∧ t = thisYearEnd t := by
  have hcomputed := congrArg MembershipPeriod.periodStart (h.computed hplain)
  rw [h.paidDate] at hpaid
  rw [ht] at hcomputed
  dsimp only at hcomputed
  rw [← hcomputed]
  cases r.mode with
  | lifetime =>
    refine iff_of_false (fun heq => ?_) (by simp)
    have heq : r.input.paidDate = t + 1 := heq
    omega
  | anniversary =>
    refine iff_of_true ?_ (.inl rfl)
    change anniversaryStart _ (some t) = _
    rw [anniversaryStart, if_pos hpaid, addDays_one]
  | calendarYear =>
    have hspec := getFullYear_spec t
    have hpaidSpec := getFullYear_spec r.input.paidDate
    change newDate (targetYear _ (some t)) 0 1 = t + 1 ↔ _
    rw [newDate_first, targetYear, thisYearEnd, newDate_last, thisYearEnd, newDate_last]
    simp only [reduceCtorEq, false_or, true_and]
    split_ifs with hpast
    · omega
    · rw [getFullYear_eq (n := t) (y := getFullYear r.input.paidDate) (by omega) (by omega)]
      omega

/-! ## Steps -/

/-- The periods of stored payments are in order, and each was recorded by a request. -/
structure Stored (db : Db) : Prop where
  payments : ∀ p ∈ db.payments, Ordered p ∧ ∃ r ∈ db.history, r.payment = p
  history : ∀ r ∈ db.history, RecordOk r ∧ r.payment ∈ db.payments

/-- A request goes on with payments whose periods are in order. -/
def PhaseOk : Phase → Prop
  | .typing _ _ _ _ seen => ∀ p ∈ seen, Ordered p
  | .creating type _ input seen period => (∀ p ∈ seen, Ordered p) ∧
      resolvePaymentPeriod type.renewalMode input.paidDate
        (derivePaidThrough (seen.map Payment.periodEnd)).1 input.override = .ok period
  | _ => True

structure Inv (s : State) : Prop where
  stored : Stored s.db
  phases : ∀ k, PhaseOk (s.phase k)

variable {s s' : State} {k : ℕ}

theorem Inv.goto (hs : Inv s) {p : Phase} (hp : PhaseOk p) : Inv (s.goto k p) := by
  refine ⟨hs.stored, fun j => ?_⟩
  by_cases hjk : j = k
  · subst hjk
    rwa [Sys.goto_phase_self]
  · rw [Sys.goto_phase_of_ne hjk]
    exact hs.phases j

theorem Inv.close (hs : Inv s) {db : Db} (hdb : Stored db) {p : Phase} (hp : PhaseOk p) :
    Inv (s.close k db p) := by
  refine ⟨hdb, fun j => ?_⟩
  by_cases hjk : j = k
  · subst hjk
    rwa [Sys.close_phase_self]
  · rw [Sys.close_phase_of_ne hjk]
    exact hs.phases j

theorem parseDate_eq_some {date stored : ℤ} (h : parseDate date = some stored) : stored = date := by
  unfold parseDate at h
  split at h
  · exact (Option.some.inj h).symm
  · cases h

theorem mapM_parseDate_eq_some {date stored : Option ℤ} (h : date.mapM parseDate = some stored) :
    stored = date := by
  cases date with
  | none => exact (Option.some.inj h).symm
  | some date =>
    obtain ⟨day, hday, hstored⟩ := Option.map_eq_some_iff.1 h
    rw [← hstored, parseDate_eq_some hday]

theorem newPayment_eq_some {id memberId : ℕ} {type : MembershipType} {input : PaymentInput}
    {period : MembershipPeriod} {p : Payment} (h : newPayment id type memberId input period = some p) :
    p.memberId = memberId ∧ p.paidDate = input.paidDate ∧
      (⟨p.periodStart, p.periodEnd⟩ : MembershipPeriod) = period := by
  obtain ⟨paidDate, hpaid, h⟩ := Option.bind_eq_some_iff.1 h
  obtain ⟨periodStart, hstart, h⟩ := Option.bind_eq_some_iff.1 h
  obtain ⟨periodEnd, hend, h⟩ := Option.bind_eq_some_iff.1 h
  cases h
  refine ⟨rfl, parseDate_eq_some hpaid, ?_⟩
  rw [parseDate_eq_some hstart, mapM_parseDate_eq_some hend]

theorem ordered_of_resolved {mode : RenewalMode} {paidDate : ℤ} {paidThrough : Option ℤ}
    {override : Option MembershipPeriod} {p : Payment}
    (h : resolvePaymentPeriod mode paidDate paidThrough override =
      .ok ⟨p.periodStart, p.periodEnd⟩) : Ordered p := by
  unfold Ordered
  cases override with
  | some period =>
    rw [resolvePaymentPeriod] at h
    by_cases hany : period.periodEnd.any (· < period.periodStart) = true
    · rw [if_pos hany] at h
      cases h
    · rw [if_neg hany] at h
      obtain rfl := Except.ok.inj h
      intro last hlast
      by_contra hlt
      exact hany ((Option.any_eq_true _ _).2 ⟨last, hlast, by simpa using hlt⟩)
  | none =>
    have h := Except.ok.inj h
    intro last hlast
    by_cases hmode : mode = .lifetime
    · rw [hmode] at h
      rw [← (MembershipPeriod.mk.inj h).2] at hlast
      cases hlast
    · obtain ⟨first, last', hperiod, hle, -⟩ := period_of_paidThrough hmode paidDate paidThrough
      obtain ⟨hfirst, hend⟩ := MembershipPeriod.mk.inj (h.symm.trans hperiod)
      rw [hend] at hlast
      rw [hfirst, ← Option.some.inj hlast]
      exact hle

theorem phaseOk_afterMember (hdb : Stored s.db) (bookGuid : String) (memberId : ℕ)
    (input : PaymentInput) : PhaseOk (afterMember s.db bookGuid memberId input) := by
  unfold afterMember
  split
  · trivial
  · split
    · trivial
    · exact fun p hp => (hdb.payments p (List.mem_of_mem_filter hp)).1

theorem phaseOk_afterType (db : Db) (bookGuid : String) (memberId typeId : ℕ) (input : PaymentInput)
    {seen : List Payment} (hseen : ∀ p ∈ seen, Ordered p) :
    PhaseOk (afterType db bookGuid memberId typeId input seen) := by
  unfold afterType
  split
  · trivial
  · split
    · trivial
    · next hperiod => exact ⟨hseen, hperiod⟩

theorem stored_insert {db : Db} (hdb : Stored db) (hr : RecordOk r) : Stored (db.insert r) := by
  constructor
  · intro p hp
    rcases List.mem_append.1 hp with hp | hp
    · obtain ⟨hordered, q, hq, rfl⟩ := hdb.payments p hp
      exact ⟨hordered, q, List.mem_cons_of_mem _ hq, rfl⟩
    · obtain rfl := List.mem_singleton.1 hp
      exact ⟨ordered_of_resolved hr.period, r, List.mem_cons_self, rfl⟩
  · intro q hq
    rcases List.mem_cons.1 hq with rfl | hq
    · exact ⟨hr, List.mem_append_right _ (List.mem_singleton_self _)⟩
    · exact ⟨(hdb.history q hq).1, List.mem_append_left _ (hdb.history q hq).2⟩

/-! ## Runs -/

/-- A request that records a payment finds the payments of the member that it read. -/
def Unraced : Step → State → Prop
  | .advance k, s =>
    match s.phase k with
    | .creating _ memberId _ seen _ => seen = s.db.payments.filter fun p => p.memberId = memberId
    | _ => True
  | _, _ => True

/-- Every request read the payments of its member that were recorded before its own. -/
def SeenInTurn (db : Db) : Prop :=
  db.history.Pairwise fun r q => r.payment.memberId = q.payment.memberId → q.payment ∈ r.seen

theorem inv_next {l : Step} (hnext : next l s = some s') (hs : Inv s) :
    Inv s' ∧ (Unraced l s → SeenInTurn s.db → SeenInTurn s'.db) := by
  cases l with
  | call k bookGuid memberId input =>
    simp only [next] at hnext
    split at hnext
    · cases hnext
      exact ⟨hs.goto trivial, fun _ h => h⟩
    · cases hnext
  | crash k =>
    cases hnext
    exact ⟨hs.goto trivial, fun _ h => h⟩
  | saveMember member =>
    cases hnext
    exact ⟨⟨⟨hs.stored.payments, hs.stored.history⟩, hs.phases⟩, fun _ h => h⟩
  | saveType type =>
    cases hnext
    exact ⟨⟨⟨hs.stored.payments, hs.stored.history⟩, hs.phases⟩, fun _ h => h⟩
  | advance k =>
    have hk := hs.phases k
    simp only [next, advanceNext] at hnext
    simp only [Unraced]
    cases hphase : s.phase k with
    | idle => simp [hphase] at hnext
    | done outcome => simp [hphase] at hnext
    | reading bookGuid memberId input =>
      rw [hphase] at hnext
      cases hnext
      exact ⟨hs.goto (phaseOk_afterMember hs.stored ..), fun _ h => h⟩
    | typing bookGuid memberId typeId input seen =>
      rw [hphase] at hnext hk
      cases hnext
      exact ⟨hs.goto (phaseOk_afterType _ _ _ _ _ hk), fun _ h => h⟩
    | creating type memberId input seen period =>
      rw [hphase] at hnext hk
      dsimp only at hnext
      split at hnext
      · cases hnext
        exact ⟨hs.goto trivial, fun _ h => h⟩
      · next payment hpayment =>
          cases hnext
          obtain ⟨hmember, hpaid, hperiod⟩ := newPayment_eq_some hpayment
          have hr : RecordOk ⟨payment, input, type.renewalMode, seen⟩ :=
            ⟨hk.1, hpaid, hk.2.trans (congrArg _ hperiod.symm)⟩
          refine ⟨hs.close (stored_insert hs.stored hr) trivial, fun hl hturn => ?_⟩
          refine List.pairwise_cons.2 ⟨fun q hq hsame => ?_, hturn⟩
          change q.payment ∈ seen
          rw [hl]
          exact List.mem_filter.2 ⟨(hs.stored.history q hq).2, by simpa [hmember] using hsame.symm⟩

theorem inv_start : Inv start :=
  ⟨⟨fun _ h => absurd h List.not_mem_nil, fun _ h => absurd h List.not_mem_nil⟩, fun _ => trivial⟩

/-- A payment of the first member on a day, under a type. -/
def payOn (typeId : ℕ) (paidDate : ℤ) : PaymentInput :=
  ⟨some typeId, none, paidDate, "cash", none, none, none, none⟩

/-- The member pays under the anniversary type, and then under another one the next January. -/
def twoPayments (secondType : ℕ) : List Step :=
  [.saveType ⟨1, "book", "Rotating", 50, .anniversary⟩,
    .saveType ⟨2, "book", "Annual", 60, .calendarYear⟩, .saveMember ⟨1, "book", none⟩,
    .call 0 "book" 1 (payOn 1 (newDate 2026 2 15)), .advance 0, .advance 0, .advance 0,
    .call 1 "book" 1 (payOn secondType (newDate 2027 0 10)), .advance 1, .advance 1, .advance 1]

end Membership
