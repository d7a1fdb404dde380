import GnucashWeb.Ledger.Amount
import GnucashWeb.Lib.Annuity
import GnucashWeb.Lib.Civil
import Mathlib.Algebra.Order.Field.Rat
import Mathlib.Tactic.LinearCombination

/-!
# Mortgage schedules

The monthly builders share a loop (`payoffLoop`) over what a month makes of the balance; the bi-weekly
one gathers payments by calendar month.  Every schedule keeps the balances that the payments leave
(`Follows`), and pays off because the debt is worth no more than the payments that are left of the
term (`Annuity.presentValue`).
-/

open Ledger (mathRound)
open Civil (getFullYear getMonth)
open Annuity

namespace Mortgage

/-! ## The builders -/

structure AmortizationRow where
  month : ℕ
  payment : ℚ
  principal : ℚ
  interest : ℚ
  extra : ℚ
  balance : ℚ
deriving DecidableEq, Repr

def calcMonthlyPayment (principal monthlyRate : ℚ) (totalMonths : ℕ) : ℚ :=
  if principal ≤ 0 ∨ totalMonths = 0 then 0
  else if monthlyRate = 0 then principal / totalMonths
  else
    principal * (monthlyRate * (1 + monthlyRate) ^ totalMonths) /
      ((1 + monthlyRate) ^ totalMonths - 1)

/-- The loop over the months while a balance is left; the safety stop leaves 1201 rows at most. -/
def payoffLoop (row : ℕ → ℚ → AmortizationRow) : ℕ → ℕ → ℚ → List AmortizationRow
  | 0, _, _ => []
  | fuel + 1, month, balance =>
    if 0 < balance then
      row month balance :: payoffLoop row fuel (month + 1) (row month balance).balance
    else []

/-- A month of `buildAmortizationSchedule`. -/
def amortizationRow (monthlyRate basePayment extraPayment : ℚ) (month : ℕ) (balance : ℚ) :
    AmortizationRow :=
  let interest := balance * monthlyRate
  let uncapped := basePayment - interest + extraPayment
  let principalPortion := if balance < uncapped then balance else uncapped
  let actualExtra := min extraPayment (max 0 (balance - (basePayment - interest)))
  let actualPrincipal := principalPortion - actualExtra
  { month, payment := actualPrincipal + interest + actualExtra, principal := actualPrincipal
    interest, extra := actualExtra, balance := max 0 (balance - principalPortion) }

def buildAmortizationSchedule (principal monthlyRate : ℚ) (totalMonths : ℕ) (extraPayment : ℚ) :
    List AmortizationRow :=
  let basePayment := calcMonthlyPayment principal monthlyRate totalMonths
  if basePayment ≤ 0 ∨ principal ≤ 0 then []
  else payoffLoop (amortizationRow monthlyRate basePayment extraPayment) 1201 1 principal

/-- A month of `buildScheduleWithExtraFn`. -/
def extraRow (monthlyRate basePayment : ℚ) (extraForMonth : ℕ → ℚ → ℚ) (month : ℕ)
    (balance : ℚ) : AmortizationRow :=
  let interest := balance * monthlyRate
  let scheduledPrincipal := max 0 (basePayment - interest)
  let requestedExtra := max 0 (extraForMonth month balance)
  let actualPrincipal := min scheduledPrincipal balance
  let actualExtra := min requestedExtra (balance - actualPrincipal)
  { month, payment := actualPrincipal + interest + actualExtra, principal := actualPrincipal
    interest, extra := actualExtra, balance := max 0 (balance - actualPrincipal - actualExtra) }

def buildScheduleWithExtraFn (principal monthlyRate basePayment : ℚ)
    (extraForMonth : ℕ → ℚ → ℚ) : List AmortizationRow :=
  if basePayment ≤ 0 ∨ principal ≤ 0 then []
  else payoffLoop (extraRow monthlyRate basePayment extraForMonth) 1201 1 principal

/-- The calendar month that is being gathered; there is none before the first payment. -/
structure OpenMonth where
  key : Option (ℤ × ℤ)
  index : ℕ
  principal : ℚ
  interest : ℚ
  extra : ℚ

def OpenMonth.flush (m : OpenMonth) (endBalance : ℚ) : List AmortizationRow :=
  match m.key with
  | none => []
  | some _ => [⟨m.index, m.principal + m.interest + m.extra, m.principal, m.interest, m.extra,
      endBalance⟩]

/-- The bi-weekly payments: the rate for a year in percent, the monthly payment and the start. -/
structure Biweekly where
  annualRate : ℚ
  basePayment : ℚ
  start : ℤ

namespace Biweekly

variable (b : Biweekly)

def monthlyRate : ℚ := b.annualRate / 100 / 12

def periodRate : ℚ := b.annualRate / 100 / 26

def monthKey (period : ℕ) : ℤ × ℤ :=
  (getFullYear (b.start + period * 14), getMonth (b.start + period * 14))

def interest (balance : ℚ) : ℚ := balance * b.periodRate

def principalPortion (balance : ℚ) : ℚ :=
  max 0 (min (b.basePayment / 2 - b.interest balance) balance)

/-- What exceeds half of the scheduled principal of a month. -/
def extraPortion (balance : ℚ) : ℚ :=
  max 0 (b.principalPortion balance - max 0 (b.basePayment - balance * b.monthlyRate) / 2)

/-- The month of a payment, a new one when the calendar month changes. -/
def enter (period : ℕ) (m : OpenMonth) : OpenMonth :=
  if m.key = some (b.monthKey period) then m
  else ⟨some (b.monthKey period), m.index + 1, 0, 0, 0⟩

def gather (balance : ℚ) (m : OpenMonth) : OpenMonth :=
  { m with
    principal := m.principal + (b.principalPortion balance - b.extraPortion balance)
    interest := m.interest + b.interest balance
    extra := m.extra + b.extraPortion balance }

/-- The rows that the payments from a period on add. -/
def loop : ℕ → ℕ → OpenMonth → ℚ → List AmortizationRow
  | 0, _, m, balance => m.flush balance
  | fuel + 1, period, m, balance =>
    if 0 < balance then
      (if m.key = some (b.monthKey period) then [] else m.flush balance) ++
        loop fuel (period + 1) (b.gather balance (b.enter period m))
          (max 0 (balance - b.principalPortion balance))
    else m.flush balance

end Biweekly

def buildBiweeklySchedule (principal annualRate : ℚ) (totalMonths : ℕ) (start : ℤ) :
    List AmortizationRow :=
  let basePayment := calcMonthlyPayment principal (annualRate / 100 / 12) totalMonths
  if basePayment ≤ 0 ∨ principal ≤ 0 then []
  else Biweekly.loop ⟨annualRate, basePayment, start⟩ (26 * 100) 0 ⟨none, 0, 0, 0, 0⟩ principal

inductive PayoffStrategyType
  | none | fixedMonthly | extraAnnual | biweekly | roundup | lumpSum
deriving DecidableEq, Repr

structure PayoffStrategy where
  type : PayoffStrategyType
  fixedMonthly : Option ℚ
  extraPaymentsPerYear : Option ℚ
  roundUpTo : Option ℚ
  lumpSum : Option ℚ
  lumpSumMonth : Option ℚ
deriving DecidableEq, Repr

/-- The schedule of a strategy; without a start date it starts today. -/
def buildScheduleForStrategy (today : ℤ) (principal monthlyRate : ℚ) (totalMonths : ℕ)
    (strategy : PayoffStrategy) (startDate : Option ℤ) : List AmortizationRow :=
  let basePayment := calcMonthlyPayment principal monthlyRate totalMonths
  if basePayment ≤ 0 then []
  else
    match strategy.type with
    | .biweekly =>
      buildBiweeklySchedule principal (monthlyRate * 12 * 100) totalMonths (startDate.getD today)
    | .fixedMonthly =>
      let extra := max 0 (strategy.fixedMonthly.getD 0)
      buildScheduleWithExtraFn principal monthlyRate basePayment fun _ _ => extra
    | .extraAnnual =>
      let n := max 1 (mathRound (strategy.extraPaymentsPerYear.getD 1))
      let interval := max 1 (mathRound (12 / n))
      buildScheduleWithExtraFn principal monthlyRate basePayment fun month _ =>
        if (month : ℤ) % interval = 0 then basePayment else 0
    | .roundup =>
      let step := max 1 (strategy.roundUpTo.getD 100)
      let roundedPayment := ⌈basePayment / step⌉ * step
      let extra := max 0 (roundedPayment - basePayment)
      buildScheduleWithExtraFn principal monthlyRate basePayment fun _ _ => extra
    | .lumpSum =>
      let amount := max 0 (strategy.lumpSum.getD 0)
      let at' := max 1 (mathRound (strategy.lumpSumMonth.getD 1))
      buildScheduleWithExtraFn principal monthlyRate basePayment fun month _ =>
        if (month : ℤ) = at' then amount else 0
    | .none => buildAmortizationSchedule principal monthlyRate totalMonths 0

def totalInterestFromSchedule (schedule : List AmortizationRow) : ℚ :=
  (schedule.map AmortizationRow.interest).sum

/-! ## Schedules -/

structure AmortizationRow.Sound (row : AmortizationRow) : Prop where
  principal : 0 ≤ row.principal
  interest : 0 ≤ row.interest
  extra : 0 ≤ row.extra
  balance : 0 ≤ row.balance
  payment : row.payment = row.principal + row.interest + row.extra

/-- Each balance is the previous one less the principal and the extra of its row. -/
def Follows : ℚ → List AmortizationRow → Prop
  | _, [] => True
  | previous, row :: rows =>
    row.balance = previous - row.principal - row.extra ∧ Follows row.balance rows

structure IsSchedule (principal : ℚ) (rows : List AmortizationRow) : Prop where
  sound : ∀ row ∈ rows, row.Sound
  follows : Follows principal rows
  repaid : (rows.map fun row => row.principal + row.extra).sum = principal
  paidOff : rows.getLast?.map AmortizationRow.balance = some 0

inductive Leads : ℚ → List AmortizationRow → ℚ → Prop
  | nil (balance : ℚ) : Leads balance [] balance
  | cons {balance last : ℚ} {row : AmortizationRow} {rows : List AmortizationRow}
      (sound : row.Sound) (follows : row.balance = balance - row.principal - row.extra)
      (rest : Leads row.balance rows last) : Leads balance (row :: rows) last

theorem Leads.append {x y z : ℚ} {rows rows' : List AmortizationRow} (h : Leads x rows y)
    (h' : Leads y rows' z) : Leads x (rows ++ rows') z := by
  induction h with
  | nil balance => exact h'
  | cons sound follows rest ih => exact .cons sound follows (ih h')

theorem Leads.isSchedule {principal : ℚ} {rows : List AmortizationRow} (h : Leads principal rows 0)
    (hprincipal : 0 < principal) : IsSchedule principal rows := by
  have hspec (x y : ℚ) (rows : List AmortizationRow) (h : Leads x rows y) :
      (∀ row ∈ rows, row.Sound) ∧ Follows x rows ∧
        (rows.map fun row => row.principal + row.extra).sum = x - y ∧
        (rows.getLast?.map AmortizationRow.balance).getD x = y := by
    induction h with
    | nil balance => simp [Follows]
    | @cons balance last row rows sound follows rest ih =>
      obtain ⟨hsound, hfollows, hsum, hlast⟩ := ih
      refine ⟨List.forall_mem_cons.2 ⟨sound, hsound⟩, ⟨follows, hfollows⟩, ?_, ?_⟩
      · rw [List.map_cons, List.sum_cons, hsum, follows]
        ring
      · rw [List.getLast?_cons]
        cases hrow : rows.getLast? <;> simpa [hrow] using hlast
  obtain ⟨hsound, hfollows, hsum, hlast⟩ := hspec _ _ _ h
  refine ⟨hsound, hfollows, by rw [hsum, sub_zero], ?_⟩
  cases hrow : rows.getLast? with
  | none =>
    rw [hrow] at hlast
    exact absurd hlast hprincipal.ne'
  | some row =>
    rw [hrow] at hlast
    exact congrArg some hlast

/-! ## Monthly schedules -/

section Monthly

variable {monthlyRate basePayment : ℚ} {extraForMonth : ℕ → ℚ → ℚ} {month : ℕ} {balance : ℚ}

/-- The balance that a month leaves. -/
theorem extraRow_balance (balance : ℚ) :
    (extraRow monthlyRate basePayment extraForMonth month balance).balance =
      max 0 (balance - max 0 (basePayment - balance * monthlyRate) -
        max 0 (extraForMonth month balance)) := by
  have hsched := le_max_left 0 (basePayment - balance * monthlyRate)
  have hextra := le_max_left 0 (extraForMonth month balance)
  simp only [extraRow]
  generalize max 0 (basePayment - balance * monthlyRate) = scheduled at *
  generalize max 0 (extraForMonth month balance) = requested at *
  rcases le_total scheduled balance with h | h
  · rw [min_eq_left h]
    rcases le_total requested (balance - scheduled) with h' | h'
    · rw [min_eq_left h']
    · rw [min_eq_right h', sub_self, max_eq_left le_rfl, max_eq_left (by linarith)]
  · rw [min_eq_right h, sub_self, min_eq_right hextra, max_eq_left (by linarith),
      max_eq_left (by linarith)]

theorem extraRow_sound (hrate : 0 ≤ monthlyRate) (hbalance : 0 ≤ balance) :
    (extraRow monthlyRate basePayment extraForMonth month balance).Sound where
  principal := le_min (le_max_left ..) hbalance
  interest := mul_nonneg hbalance hrate
  extra := le_min (le_max_left ..) (sub_nonneg.2 (min_le_right ..))
  balance := le_max_left ..
  payment := rfl

theorem extraRow_follows (row : AmortizationRow)
    (h : row = extraRow monthlyRate basePayment extraForMonth month balance) :
    row.balance = balance - row.principal - row.extra := by
  subst h
  refine max_eq_right ?_
  exact sub_nonneg.2 (min_le_right ..)

/-- A month leaves no more than the payment leaves of the balance with its interest. -/
theorem extraRow_balance_le :
    (extraRow monthlyRate basePayment extraForMonth month balance).balance ≤
      max 0 (balance + balance * monthlyRate - basePayment) := by
  rw [extraRow_balance balance]
  refine max_le_max le_rfl ?_
  have hsched := le_max_right 0 (basePayment - balance * monthlyRate)
  have hextra := le_max_left 0 (extraForMonth month balance)
  linarith

/-- So many months pay off a balance that so many payments are worth. -/
theorem payoffLoop_leads (hrate : 0 ≤ monthlyRate) (hpay : 0 ≤ basePayment) {fuel k : ℕ}
    (hk : k ≤ fuel) (hbalance : 0 ≤ balance)
    (hworth : balance ≤ presentValue monthlyRate basePayment k) :
    Leads balance (payoffLoop (extraRow monthlyRate basePayment extraForMonth) fuel month balance)
      0 := by
  induction fuel generalizing k month balance with
  | zero =>
    obtain rfl : k = 0 := Nat.le_zero.1 hk
    obtain rfl : balance = 0 := le_antisymm hworth hbalance
    exact .nil 0
  | succ fuel ih =>
    rw [payoffLoop]
    split
    · next hpos =>
        cases k with
        | zero => exact absurd hworth (not_le.2 hpos)
        | succ k =>
          refine .cons (extraRow_sound hrate hbalance) (extraRow_follows _ rfl)
            (ih (Nat.le_of_succ_le_succ hk) (extraRow_sound hrate hbalance).balance ?_)
          exact extraRow_balance_le.trans (max_le_presentValue hrate hpay hworth)
    · next hpos =>
        obtain rfl : balance = 0 := le_antisymm (not_lt.1 hpos) hbalance
        exact .nil 0

theorem amortizationRow_eq {extraPayment : ℚ} (hextra : 0 ≤ extraPayment)
    (hcover : balance * monthlyRate ≤ basePayment) :
    amortizationRow monthlyRate basePayment extraPayment month balance =
      extraRow monthlyRate basePayment (fun _ _ => extraPayment) month balance := by
  have hscheduled : 0 ≤ basePayment - balance * monthlyRate := by linarith
  have hrest : max 0 (balance - (basePayment - balance * monthlyRate)) =
      balance - min (basePayment - balance * monthlyRate) balance := by
    rcases le_total (basePayment - balance * monthlyRate) balance with h | h
    · rw [min_eq_left h, max_eq_right (by linarith)]
    · rw [min_eq_right h, max_eq_left (by linarith), sub_self]
  have hportion : (if balance < basePayment - balance * monthlyRate + extraPayment then balance
      else basePayment - balance * monthlyRate + extraPayment) =
      min (basePayment - balance * monthlyRate) balance +
        min extraPayment (balance - min (basePayment - balance * monthlyRate) balance) := by
    rw [← hrest]
    rcases le_total (basePayment - balance * monthlyRate) balance with h | h
    · rw [min_eq_left h, max_eq_right (by linarith)]
      split
      · rw [min_eq_right (by linarith)]
        ring
      · rw [min_eq_left (by linarith)]
    · rw [min_eq_right h, max_eq_left (by linarith), min_eq_right hextra, add_zero]
      split <;> linarith
  simp only [amortizationRow, extraRow, max_eq_right hscheduled, max_eq_right hextra, hportion,
    hrest, add_sub_cancel_right, sub_sub]

/-- As long as the payment covers the interest on the balance, both builders give the same rows. -/
theorem payoffLoop_amortizationRow_eq {extraPayment : ℚ} (hrate : 0 ≤ monthlyRate)
    (hextra : 0 ≤ extraPayment) (fuel : ℕ) (hcover : balance * monthlyRate ≤ basePayment) :
    payoffLoop (amortizationRow monthlyRate basePayment extraPayment) fuel month balance =
      payoffLoop (extraRow monthlyRate basePayment fun _ _ => extraPayment) fuel month balance := by
  induction fuel generalizing month balance with
  | zero => rfl
  | succ fuel ih =>
    rw [payoffLoop, payoffLoop, amortizationRow_eq hextra hcover]
    split
    · next hpos =>
        have hle : (extraRow monthlyRate basePayment (fun _ _ => extraPayment) month
            balance).balance ≤ balance := by
          rw [extraRow_balance]
          have := le_max_left 0 (basePayment - balance * monthlyRate)
          have := le_max_left 0 extraPayment
          exact max_le hpos.le (by linarith)
        rw [ih ((mul_le_mul_of_nonneg_right hle hrate).trans hcover)]
    · rfl

/-- A smaller balance and a larger extra leave a smaller balance. -/
theorem extraRow_balance_mono {extra extra' : ℕ → ℚ} (hrate : 0 ≤ monthlyRate) {balance' : ℚ}
    (hbalance : balance' ≤ balance) (hextra : extra month ≤ extra' month) :
    (extraRow monthlyRate basePayment (fun m _ => extra' m) month balance').balance ≤
      (extraRow monthlyRate basePayment (fun m _ => extra m) month balance).balance := by
  have hleft (b : ℚ) : b - max 0 (basePayment - b * monthlyRate) =
      min b (b + b * monthlyRate - basePayment) := by
    rcases le_total 0 (basePayment - b * monthlyRate) with h | h
    · rw [max_eq_right h, min_eq_right (by linarith)]
      ring
    · rw [max_eq_left h, min_eq_left (by linarith), sub_zero]
  have hinterest := mul_le_mul_of_nonneg_right hbalance hrate
  rw [extraRow_balance, extraRow_balance, hleft, hleft]
  exact max_le_max le_rfl (sub_le_sub (min_le_min hbalance (by linarith))
    (max_le_max le_rfl hextra))

theorem totalInterest_nonneg {extra : ℕ → ℚ} (hrate : 0 ≤ monthlyRate) (fuel : ℕ) :
    0 ≤ totalInterestFromSchedule
      (payoffLoop (extraRow monthlyRate basePayment fun m _ => extra m) fuel month balance) := by
  induction fuel generalizing month balance with
  | zero => exact le_rfl
  | succ fuel ih =>
    rw [payoffLoop]
    split
    · next hpos => exact add_nonneg (mul_nonneg hpos.le hrate) ih
    · exact le_rfl

/-- Larger extras leave no more interest and no more months. -/
theorem payoffLoop_mono {extra extra' : ℕ → ℚ} (hrate : 0 ≤ monthlyRate)
    (hextra : ∀ m, extra m ≤ extra' m) (fuel : ℕ) {balance' : ℚ} (hbalance : balance' ≤ balance) :
    totalInterestFromSchedule
        (payoffLoop (extraRow monthlyRate basePayment fun m _ => extra' m) fuel month balance') ≤
      totalInterestFromSchedule
        (payoffLoop (extraRow monthlyRate basePayment fun m _ => extra m) fuel month balance) ∧
    (payoffLoop (extraRow monthlyRate basePayment fun m _ => extra' m) fuel month
        balance').length ≤
      (payoffLoop (extraRow monthlyRate basePayment fun m _ => extra m) fuel month
        balance).length := by
  induction fuel generalizing month balance balance' with
  | zero => exact ⟨le_rfl, le_rfl⟩
  | succ fuel ih =>
    by_cases hpos : 0 < balance'
    · rw [payoffLoop, if_pos hpos, payoffLoop, if_pos (hpos.trans_le hbalance)]
      exact ⟨add_le_add (mul_le_mul_of_nonneg_right hbalance hrate)
          (ih (extraRow_balance_mono hrate hbalance (hextra month))).1,
        Nat.succ_le_succ (ih (extraRow_balance_mono hrate hbalance (hextra month))).2⟩
    · rw [payoffLoop, if_neg hpos]
      exact ⟨totalInterest_nonneg hrate _, Nat.zero_le _⟩

end Monthly

/-! ## The bi-weekly schedule -/

namespace Biweekly

variable {b : Biweekly} {m : OpenMonth} {previous balance : ℚ} {period : ℕ}

structure Gathers (m : OpenMonth) (previous balance : ℚ) : Prop where
  principal : 0 ≤ m.principal
  interest : 0 ≤ m.interest
  extra : 0 ≤ m.extra
  previous : previous = balance + m.principal + m.extra
  none : m.key = none → m.principal = 0 ∧ m.extra = 0

theorem leads_flush (h : Gathers m previous balance) (hbalance : 0 ≤ balance) :
    Leads previous (m.flush balance) balance := by
  unfold OpenMonth.flush
  split
  · next hkey =>
      obtain ⟨hprincipal, hextra⟩ := h.none hkey
      rw [h.previous, hprincipal, hextra, add_zero, add_zero]
      exact .nil balance
  · refine .cons ⟨h.principal, h.interest, h.extra, hbalance, rfl⟩ ?_ (.nil _)
    rw [h.previous]
    ring

theorem principalPortion_le (b : Biweekly) (hbalance : 0 ≤ balance) :
    b.principalPortion balance ≤ balance :=
  max_le hbalance (min_le_right ..)

theorem extraPortion_le (b : Biweekly) (balance : ℚ) :
    b.extraPortion balance ≤ b.principalPortion balance := by
  have := le_max_left 0 (b.basePayment - balance * b.monthlyRate)
  exact max_le (le_max_left ..) (by linarith)

/-- A payment keeps what is gathered, in a new month as in the old one. -/
theorem gathers_gather (hrate : 0 ≤ b.periodRate) (hbalance : 0 ≤ balance)
    (h : Gathers (b.enter period m) previous balance) :
    Gathers (b.gather balance (b.enter period m)) previous
      (max 0 (balance - b.principalPortion balance)) where
  principal := add_nonneg h.principal (sub_nonneg.2 (b.extraPortion_le balance))
  interest := add_nonneg h.interest (mul_nonneg hbalance hrate)
  extra := add_nonneg h.extra (le_max_left ..)
  previous := by
    rw [max_eq_right (sub_nonneg.2 (b.principalPortion_le hbalance)), h.previous]
    simp only [gather]
    ring
  none hkey := by
    simp only [gather, enter] at hkey
    split at hkey
    · next hm => exact absurd (hm.symm.trans hkey) (by simp)
    · cases hkey

/-- The payments that are left pay off a balance that they are worth. -/
theorem leads_loop (hrate : 0 ≤ b.periodRate) (hpay : 0 ≤ b.basePayment) {fuel : ℕ}
    (hbalance : 0 ≤ balance) (h : Gathers m previous balance)
    (hworth : balance ≤ presentValue b.periodRate (b.basePayment / 2) fuel) :
    Leads previous (b.loop fuel period m balance) 0 := by
  induction fuel generalizing period m previous balance with
  | zero =>
    obtain rfl : balance = 0 := le_antisymm hworth hbalance
    exact leads_flush h le_rfl
  | succ fuel ih =>
    rw [loop]
    split
    · have hleft : max 0 (balance - b.principalPortion balance) ≤
          presentValue b.periodRate (b.basePayment / 2) fuel := by
        refine le_trans ?_ (max_le_presentValue hrate (by linarith) hworth)
        rcases le_total (b.basePayment / 2 - b.interest balance) balance with hle | hle
        · have hportion := le_max_right 0 (b.basePayment / 2 - b.interest balance)
          have hinterest : b.interest balance = balance * b.periodRate := rfl
          rw [principalPortion, min_eq_left hle]
          exact max_le_max le_rfl (by linarith)
        · simp [principalPortion, min_eq_right hle, hbalance]
      by_cases hkey : m.key = some (b.monthKey period)
      · have henter : b.enter period m = m := if_pos hkey
        rw [if_pos hkey, List.nil_append]
        exact ih (le_max_left ..) (gathers_gather hrate hbalance (henter.symm ▸ h)) hleft
      · have henter : b.enter period m = ⟨some (b.monthKey period), m.index + 1, 0, 0, 0⟩ :=
          if_neg hkey
        rw [if_neg hkey]
        refine (leads_flush h hbalance).append (ih (le_max_left ..)
          (gathers_gather hrate hbalance ?_) hleft)
        rw [henter]
        exact ⟨le_rfl, le_rfl, le_rfl, by simp, by simp⟩
    · next hpos =>
        obtain rfl : balance = 0 := le_antisymm (not_lt.1 hpos) hbalance
        exact leads_flush h le_rfl

end Biweekly

/-! ## The payment of a term -/

section Term

variable {principal monthlyRate : ℚ} {totalMonths : ℕ}

theorem calcMonthlyPayment_pos (hprincipal : 0 < principal) (hrate : 0 ≤ monthlyRate)
    (hterm : 1 ≤ totalMonths) : 0 < calcMonthlyPayment principal monthlyRate totalMonths := by
  have hmonths : (0 : ℚ) < totalMonths := by exact_mod_cast hterm
  rw [calcMonthlyPayment, if_neg (by push Not; exact ⟨hprincipal, by omega⟩)]
  split
  · positivity
  · next hzero =>
      have hpos := lt_of_le_of_ne hrate (Ne.symm hzero)
      have hgrowth : 1 < (1 + monthlyRate) ^ totalMonths :=
        one_lt_pow₀ (by linarith) (by omega)
      exact div_pos (by positivity) (by linarith)

/-- The payments of the term are worth the principal. -/
theorem presentValue_calcMonthlyPayment (hprincipal : 0 < principal) (hrate : 0 ≤ monthlyRate)
    (hterm : 1 ≤ totalMonths) :
    presentValue monthlyRate (calcMonthlyPayment principal monthlyRate totalMonths) totalMonths =
      principal := by
  have hmonths : (totalMonths : ℚ) ≠ 0 := by exact_mod_cast (show totalMonths ≠ 0 by omega)
  rcases eq_or_lt_of_le hrate with rfl | hpos
  · rw [presentValue_zero_rate, calcMonthlyPayment, if_neg (by push Not; exact ⟨hprincipal, by omega⟩),
      if_pos rfl]
    field_simp
  · have hgrowth : 1 < (1 + monthlyRate) ^ totalMonths := one_lt_pow₀ (by linarith) (by omega)
    have hne : monthlyRate * (1 + monthlyRate) ^ totalMonths ≠ 0 := by positivity
    refine mul_right_cancel₀ hne ((presentValue_mul hrate _ _).trans ?_)
    rw [calcMonthlyPayment, if_neg (by push Not; exact ⟨hprincipal, by omega⟩), if_neg hpos.ne']
    have : (1 + monthlyRate) ^ totalMonths - 1 ≠ 0 := by linarith
    field_simp

/-- So are the bi-weekly payments of a hundred years, at the longest term. -/
theorem le_presentValue_biweekly (hprincipal : 0 < principal) (hrate : 0 ≤ monthlyRate)
    (hterm : 1 ≤ totalMonths) (hmax : totalMonths ≤ 1200) :
    principal ≤ presentValue (monthlyRate * 12 / 26)
      (calcMonthlyPayment principal monthlyRate totalMonths / 2) (26 * 100) := by
  have hworth := presentValue_calcMonthlyPayment hprincipal hrate hterm
  have hpay := calcMonthlyPayment_pos hprincipal hrate hterm
  generalize calcMonthlyPayment principal monthlyRate totalMonths = pay at *
  rcases eq_or_lt_of_le hrate with rfl | hpos
  · have hmonths : (totalMonths : ℚ) ≤ 1200 := by exact_mod_cast hmax
    rw [presentValue_zero_rate] at hworth
    rw [zero_mul, zero_div, presentValue_zero_rate, ← hworth]
    push_cast
    nlinarith
  · have hrate' : 0 < monthlyRate * 12 / 26 := by positivity
    have hmonthly := presentValue_mul hrate pay totalMonths
    have hbiweekly := presentValue_mul hrate'.le (pay / 2) (26 * 100)
    rw [hworth] at hmonthly
    have hgrowth : (1 + monthlyRate) ^ totalMonths ≤ (1 + monthlyRate * 12 / 26) ^ (26 * 100) :=
      calc (1 + monthlyRate) ^ totalMonths ≤ (1 + monthlyRate) ^ (6 * 200) :=
            pow_le_pow_right₀ (by linarith) hmax
        _ = (1 + 13 / 6 * (monthlyRate * 12 / 26)) ^ (6 * 200) := by
            congr 1
            ring
        _ ≤ (1 + monthlyRate * 12 / 26) ^ (13 * 200) := one_add_pow_le hrate'.le 200
    have hone : 1 < (1 + monthlyRate) ^ totalMonths := one_lt_pow₀ (by linarith) (by omega)
    generalize (1 + monthlyRate) ^ totalMonths = a at *
    generalize (1 + monthlyRate * 12 / 26) ^ (26 * 100) = c at *
    generalize presentValue (monthlyRate * 12 / 26) (pay / 2) (26 * 100) = worth at *
    have ha : 0 < a := by linarith
    have hc : 0 < c := by linarith
    have hscale : 0 < monthlyRate * a * c := by positivity
    refine le_of_mul_le_mul_right ?_ hscale
    calc principal * (monthlyRate * a * c) = pay * ((a - 1) * c) := by
          linear_combination c * hmonthly
      _ ≤ pay * (13 / 12 * ((c - 1) * a)) := by
          have : 0 ≤ (c - 1) * a := mul_nonneg (by linarith) (by linarith)
          exact mul_le_mul_of_nonneg_left (by linarith) hpay.le
      _ = worth * (monthlyRate * a * c) := by
          linear_combination -(13 / 6 * a) * hbiweekly

end Term

/-! ## What the schedules promise -/

section Promise

variable {principal monthlyRate : ℚ} {totalMonths : ℕ}

theorem isSchedule_extraFn (hprincipal : 0 < principal) (hrate : 0 ≤ monthlyRate)
    (hterm : 1 ≤ totalMonths) (hmax : totalMonths ≤ 1200) (extraForMonth : ℕ → ℚ → ℚ) :
    IsSchedule principal (buildScheduleWithExtraFn principal monthlyRate
      (calcMonthlyPayment principal monthlyRate totalMonths) extraForMonth) := by
  have hpay := calcMonthlyPayment_pos hprincipal hrate hterm
  rw [buildScheduleWithExtraFn, if_neg (by push Not; exact ⟨hpay, hprincipal⟩)]
  exact (payoffLoop_leads hrate hpay.le (hmax.trans (by omega)) hprincipal.le
    (presentValue_calcMonthlyPayment hprincipal hrate hterm).ge).isSchedule hprincipal

theorem isSchedule_biweekly (hprincipal : 0 < principal) (hrate : 0 ≤ monthlyRate)
    (hterm : 1 ≤ totalMonths) (hmax : totalMonths ≤ 1200) (start : ℤ) :
    IsSchedule principal
      (buildBiweeklySchedule principal (monthlyRate * 12 * 100) totalMonths start) := by
  have hpay := calcMonthlyPayment_pos hprincipal hrate hterm
  have hmonthly : monthlyRate * 12 * 100 / 100 / 12 = monthlyRate := by ring
  have hperiod : monthlyRate * 12 * 100 / 100 / 26 = monthlyRate * 12 / 26 := by ring
  rw [buildBiweeklySchedule, hmonthly, if_neg (by push Not; exact ⟨hpay, hprincipal⟩)]
  refine Leads.isSchedule (Biweekly.leads_loop ?_ hpay.le hprincipal.le
    ⟨le_rfl, le_rfl, le_rfl, by simp, by simp⟩ ?_) hprincipal
  · change 0 ≤ monthlyRate * 12 * 100 / 100 / 26
    positivity
  · change principal ≤ presentValue (monthlyRate * 12 * 100 / 100 / 26) _ _
    rw [hperiod]
    exact le_presentValue_biweekly hprincipal hrate hterm hmax

theorem buildAmortizationSchedule_eq (hprincipal : 0 < principal) (hrate : 0 ≤ monthlyRate)
    (hterm : 1 ≤ totalMonths) {extra : ℚ} (hextra : 0 ≤ extra) :
    buildAmortizationSchedule principal monthlyRate totalMonths extra =
      buildScheduleWithExtraFn principal monthlyRate
        (calcMonthlyPayment principal monthlyRate totalMonths) fun _ _ => extra := by
  have hpay := calcMonthlyPayment_pos hprincipal hrate hterm
  have hcover := presentValue_mul_rate_le hrate hpay.le totalMonths
  rw [presentValue_calcMonthlyPayment hprincipal hrate hterm] at hcover
  rw [buildAmortizationSchedule, buildScheduleWithExtraFn]
  congr 1
  exact payoffLoop_amortizationRow_eq hrate hextra 1201 hcover

structure SoundSchedules (principal monthlyRate : ℚ) (totalMonths : ℕ) : Prop where
  paysOff : ∀ today strategy startDate, IsSchedule principal
    (buildScheduleForStrategy today principal monthlyRate totalMonths strategy startDate)
  constant : ∀ extra, 0 ≤ extra →
    buildAmortizationSchedule principal monthlyRate totalMonths extra =
      buildScheduleWithExtraFn principal monthlyRate
        (calcMonthlyPayment principal monthlyRate totalMonths) fun _ _ => extra
  fewer : ∀ (basePayment : ℚ) (extra extra' : ℕ → ℚ), (∀ month, extra month ≤ extra' month) →
    let rows := buildScheduleWithExtraFn principal monthlyRate basePayment fun m _ => extra m
    let rows' := buildScheduleWithExtraFn principal monthlyRate basePayment fun m _ => extra' m
    totalInterestFromSchedule rows' ≤ totalInterestFromSchedule rows ∧ rows'.length ≤ rows.length

/-- Every schedule pays off the principal, a constant extra is one of the extras of a month, and
larger extras cost neither interest nor months. -/
theorem schedules_sound (hprincipal : 0 < principal) (hrate : 0 ≤ monthlyRate)
    (hterm : 1 ≤ totalMonths) (hmax : totalMonths ≤ 1200) :
    SoundSchedules principal monthlyRate totalMonths where
  paysOff today strategy startDate := by
    have hpay := calcMonthlyPayment_pos hprincipal hrate hterm
    rw [buildScheduleForStrategy, if_neg (not_le.2 hpay)]
    cases strategy.type with
    | biweekly => exact isSchedule_biweekly hprincipal hrate hterm hmax _
    | none =>
      dsimp only
      rw [buildAmortizationSchedule_eq hprincipal hrate hterm le_rfl]
      exact isSchedule_extraFn hprincipal hrate hterm hmax _
    | fixedMonthly | extraAnnual | roundup | lumpSum =>
      exact isSchedule_extraFn hprincipal hrate hterm hmax _
  constant _ := buildAmortizationSchedule_eq hprincipal hrate hterm
  fewer basePayment extra extra' h := by
    unfold buildScheduleWithExtraFn
    split
    · exact ⟨le_rfl, le_rfl⟩
    · exact payoffLoop_mono hrate h 1201 le_rfl

theorem schedules_sound_thirtyYears : SoundSchedules 232000 (11 / 4800) 360 :=
  schedules_sound (by norm_num) (by norm_num) (by norm_num) (by norm_num)

end Promise

end Mortgage
