import GnucashWeb.Schedule.Template

/-!
# Executing and skipping an occurrence

`executeOccurrence` and `skipOccurrence` after they have locked the row of the schedule.  A refusal
writes nothing.
-/

open Ledger (Amount Account Transaction Split)
open Transact

namespace Schedule

/-! ## Balanced numerators -/

def postingDenom : ℤ := 100

/-- Why a call does not process its occurrence. -/
inductive Refusal
  | notFound (sxGuid : String)
  | alreadyExecuted
  | noRemaining
  | noTemplateSplits
  | noSplits
  | unbalanced (off : ℚ)
  | noBookCurrency
deriving DecidableEq, Repr

/-- The text of a refusal, with the number in the host's notation. -/
def Refusal.message (numberText : ℚ → String) : Refusal → String
  | .notFound sxGuid => "Scheduled transaction " ++ sxGuid ++ " not found"
  | .alreadyExecuted => "This occurrence has already been recorded or skipped"
  | .noRemaining => "Scheduled transaction has no remaining occurrences"
  | .noTemplateSplits => "No template splits found for scheduled transaction"
  | .noSplits => "Transaction has no splits"
  | .unbalanced off => "Splits must balance (sum to zero); off by " ++ numberText off
  | .noBookCurrency => "Could not determine book currency"

/-- The position of the first numerator of greatest magnitude. -/
def absorberOf (nums : List ℤ) : ℕ :=
  (List.range nums.length).foldl
    (fun absorber i => if (nums.getD absorber 0).natAbs < (nums.getD i 0).natAbs then i else absorber) 0

/-- `balanceSplitNumerators`: numerators over a common denominator that sum to zero. -/
def balanceSplitNumerators (amounts : List ℚ) (denom : ℤ) : Except Refusal (List ℤ) :=
  if amounts = [] then .error .noSplits
  else
    let nums := amounts.map fun amount => Ledger.mathRound (amount * denom)
    let residual := nums.sum
    if (amounts.length + 1) / 2 < residual.natAbs then .error (.unbalanced (residual / denom))
    else .ok (nums.modify (absorberOf nums) (· - residual))

/-! ## The calls -/

/-- What the calls take from the environment: guids, one for each number of guids drawn before, and
the time. -/
structure Host where
  generateGuid : ℕ → String
  now : ℤ

abbrev Tx (α : Type) := StateT Db (Except Refusal) α

inductive Action
  | execute | skip
deriving DecidableEq, Repr

structure Call where
  action : Action
  occurrenceDate : ℤ
deriving DecidableEq, Repr

/-- What a call that is not refused returns. -/
inductive Done
  | executed (transactionGuid : String)
  | skipped
deriving DecidableEq, Repr

/-- An occurrence on or before the day of the last one counts as processed. -/
def alreadyProcessed (lastOccur : Option ℤ) (occurrenceDate : ℤ) : Bool :=
  lastOccur.any fun last => occurrenceDate ≤ isoDay last

/-- `sx.rem_occur === -1 ? -1 : sx.rem_occur - 1`. -/
def newRemOccur (remOccur : ℤ) : ℤ := if remOccur = -1 then -1 else remOccur - 1

def generateGuid (host : Host) : Tx String := do
  let db ← get
  set { db with drawn := db.drawn + 1 }
  pure (host.generateGuid db.drawn)

def bookCurrency (db : Db) : Option String :=
  ((db.accounts.find? fun a => a.guid ∈ db.bookRoots).bind Account.commodityGuid).filter (· ≠ "")

def updateSchedule (sxGuid : String) (f : SchedXAction → SchedXAction) : Tx Unit :=
  modify fun db => { db with schedxactions := Rows.editAt SchedXAction.guid sxGuid f db.schedxactions }

def postSplit (host : Host) (txGuid : String) (split : ResolvedSplit × ℤ) : Tx Unit := do
  let splitGuid ← generateGuid host
  let amount : Amount := ⟨split.2, postingDenom⟩
  modify fun db => { db with
    splits := db.splits ++
      [⟨splitGuid, txGuid, split.1.accountGuid, "", "", .n, none, amount, amount, none⟩] }

/-- The checks that both calls make of the locked row. -/
def checkOccurrence (sx : SchedXAction) (occurrenceDate : ℤ) : Except Refusal Unit :=
  if alreadyProcessed sx.lastOccur occurrenceDate then .error .alreadyExecuted
  else if sx.remOccur = 0 then .error .noRemaining
  else .ok ()

/-- `executeOccurrence` past its checks of the row: the resolved splits are posted and the metadata of
the schedule updated. -/
def postOccurrence (host : Host) (sx : SchedXAction) (occurrenceDate : ℤ) : Tx Done := do
  let db ← get
  let splits := resolveTemplateSplits db sx.templateActGuid
  if splits = [] then throw .noTemplateSplits
  else
    let nums ← balanceSplitNumerators (splits.map ResolvedSplit.amount) postingDenom
    match bookCurrency db with
    | none => throw .noBookCurrency
    | some currencyGuid =>
      let transactionGuid ← generateGuid host
      modify fun db => { db with
        transactions := db.transactions ++
          [⟨transactionGuid, currencyGuid, some (noon occurrenceDate), sx.name⟩] }
      (splits.zip nums).forM (postSplit host transactionGuid)
      updateSchedule sx.guid fun row => { row with
        lastOccur := some (noon occurrenceDate)
        remOccur := newRemOccur sx.remOccur
        instanceCount := sx.instanceCount + 1 }
      pure (.executed transactionGuid)

/-- `executeOccurrence` with the row that it has locked. -/
def executeOccurrence (host : Host) (sx : SchedXAction) (occurrenceDate : ℤ) : Tx Done := do
  checkOccurrence sx occurrenceDate
  postOccurrence host sx occurrenceDate

/-- `skipOccurrence` with the row that it has locked: no transaction, and the count of instances
stays. -/
def skipOccurrence (sx : SchedXAction) (occurrenceDate : ℤ) : Tx Done := do
  checkOccurrence sx occurrenceDate
  updateSchedule sx.guid fun row => { row with
    lastOccur := some (noon occurrenceDate)
    remOccur := newRemOccur sx.remOccur }
  pure .skipped

def process (host : Host) (sxGuid : String) (sx : Option SchedXAction) (call : Call) : Tx Done :=
  match sx, call.action with
  | none, _ => throw (.notFound sxGuid)
  | some sx, .execute => executeOccurrence host sx call.occurrenceDate
  | some sx, .skip => skipOccurrence sx call.occurrenceDate

/-! ## What a call does -/

/-- The row of a schedule after an occurrence of it is processed. -/
def SchedXAction.processed (sx : SchedXAction) (call : Call) : SchedXAction :=
  { sx with
    lastOccur := some (noon call.occurrenceDate)
    remOccur := newRemOccur sx.remOccur
    instanceCount := if call.action = .execute then sx.instanceCount + 1 else sx.instanceCount }

section Effects

variable {host : Host} {sx : SchedXAction} {sxGuid : String} {call : Call} {db db' : Db} {done : Done}

def SameSchedules (db db' : Db) : Prop :=
  db'.schedxactions = db.schedxactions ∧ db'.recurrences = db.recurrences

instance : IsPreorder Db SameSchedules where
  refl _ := ⟨rfl, rfl⟩
  trans _ _ _ h h' := ⟨h'.1.trans h.1, h'.2.trans h.2⟩

theorem preserves_generateGuid : Preserves SameSchedules (generateGuid host) := by
  intro db guid db' h
  simp only [generateGuid, completes_bind, completes_get, completes_set, completes_pure] at h
  obtain ⟨_, _, ⟨rfl, rfl⟩, _, _, rfl, -, rfl⟩ := h
  exact ⟨rfl, rfl⟩

theorem preserves_postSplit {txGuid : String} {split : ResolvedSplit × ℤ} :
    Preserves SameSchedules (postSplit host txGuid split) :=
  preserves_generateGuid.bind fun _ => preserves_modify fun _ => ⟨rfl, rfl⟩

theorem schedxactions_postOccurrence {occurrenceDate : ℤ}
    (h : Completes (postOccurrence host sx occurrenceDate) db done db') :
    db'.schedxactions =
        Rows.editAt SchedXAction.guid sx.guid
          (fun row => { row with
            lastOccur := some (noon occurrenceDate)
            remOccur := newRemOccur sx.remOccur
            instanceCount := sx.instanceCount + 1 }) db.schedxactions ∧
      db'.recurrences = db.recurrences ∧ ∃ guid, done = .executed guid := by
  rw [postOccurrence, completes_get_bind] at h
  dsimp only at h
  rcases completes_ite.1 h with ⟨-, h⟩ | ⟨-, h⟩
  · exact (completes_throw.1 h).elim
  · obtain ⟨nums, t, hnums, h⟩ := completes_bind.1 h
    rw [(completes_liftExcept.1 hnums).2] at h
    cases hcurrency : bookCurrency db with
    | none =>
      rw [hcurrency] at h
      exact (completes_throw.1 h).elim
    | some currencyGuid =>
      rw [hcurrency] at h
      simp only [completes_bind, completes_modify, updateSchedule, completes_pure] at h
      obtain ⟨guid, t₁, hguid, _, t₂, rfl, _, t₃, hsplits, _, _, rfl, rfl, rfl⟩ := h
      have h₁ := preserves_generateGuid _ _ _ hguid
      have h₃ := (preserves_forM fun _ _ => preserves_postSplit) _ _ _ hsplits
      refine ⟨?_, h₃.2.trans h₁.2, guid, rfl⟩
      rw [← h₁.1, ← h₃.1]

/-- A call that is not refused has passed the checks and updates the row of its schedule. -/
theorem schedule_process (h : Completes (process host sxGuid (some sx) call) db done db')
    (hrow : db.schedule? sx.guid = some sx) :
    checkOccurrence sx call.occurrenceDate = .ok () ∧
      db'.schedule? sx.guid = some (sx.processed call) ∧ db'.recurrences = db.recurrences := by
  cases hcall : call.action with
  | execute =>
    simp only [process, hcall, executeOccurrence] at h
    obtain ⟨_, t, hlift, hpost⟩ := completes_bind.1 h
    obtain ⟨hcheck, heq⟩ := completes_liftExcept.1 hlift
    rw [heq] at hpost
    obtain ⟨hrows, hrec, -⟩ := schedxactions_postOccurrence hpost
    refine ⟨hcheck, ?_, hrec⟩
    rw [Db.schedule?, hrows, SchedXAction.processed, if_pos hcall]
    exact Rows.find?_editAt (fun _ => rfl) hrow
  | skip =>
    simp only [process, hcall, skipOccurrence] at h
    obtain ⟨_, t, hlift, hskip⟩ := completes_bind.1 h
    obtain ⟨hcheck, heq⟩ := completes_liftExcept.1 hlift
    rw [heq] at hskip
    simp only [updateSchedule, completes_bind, completes_modify, completes_pure] at hskip
    obtain ⟨_, _, rfl, -, rfl⟩ := hskip
    refine ⟨hcheck, ?_, rfl⟩
    have hne : call.action ≠ .execute := by simp [hcall]
    rw [Db.schedule?, SchedXAction.processed, if_neg hne]
    exact Rows.find?_editAt (fun _ => rfl) hrow

/-- Past the checks of the row, no call is refused for want of occurrences or as processed. -/
theorem failsOnly_postOccurrence {occurrenceDate : ℤ} :
    FailsOnly (fun e => e ≠ .alreadyExecuted ∧ e ≠ .noRemaining)
      (postOccurrence host sx occurrenceDate) := by
  unfold postOccurrence
  refine failsOnly_get.bind fun db => ?_
  refine failsOnly_ite (failsOnly_throw (by simp)) ?_
  refine (failsOnly_liftM fun e he => ?_).bind fun nums => ?_
  · unfold balanceSplitNumerators at he
    dsimp only at he
    split_ifs at he <;> cases he <;> simp
  · cases bookCurrency db with
    | none => exact failsOnly_throw (by simp)
    | some currencyGuid =>
      refine (failsOnly_get.bind fun db => ?_).bind fun guid => ?_
      · exact (failsOnly_set _).bind fun _ => failsOnly_pure _
      refine (failsOnly_modify _).bind fun _ => FailsOnly.bind (failsOnly_forM ?_) fun _ => ?_
      · intro split _
        refine (failsOnly_get.bind fun db => ?_).bind fun guid => failsOnly_modify _
        exact (failsOnly_set _).bind fun _ => failsOnly_pure _
      · exact (failsOnly_modify _).bind fun _ => failsOnly_pure _

/-- The checks of the row are the only ones that refuse a call as processed or for want of
occurrences. -/
theorem process_refused {e : Refusal} (h : process host sxGuid (some sx) call db = .error e) :
    (e = .alreadyExecuted ↔ alreadyProcessed sx.lastOccur call.occurrenceDate = true) ∧
      (e = .noRemaining ↔
        alreadyProcessed sx.lastOccur call.occurrenceDate = false ∧ sx.remOccur = 0) := by
  have hrest (hcheck : checkOccurrence sx call.occurrenceDate = .ok ()) :
      e ≠ .alreadyExecuted ∧ e ≠ .noRemaining := by
    cases hcall : call.action with
    | execute =>
      simp only [process, hcall, executeOccurrence, liftM_bind_eq, hcheck] at h
      exact failsOnly_postOccurrence db e h
    | skip =>
      simp only [process, hcall, skipOccurrence, liftM_bind_eq, hcheck] at h
      cases h
  have hfirst {e' : Refusal} (hcheck : checkOccurrence sx call.occurrenceDate = .error e') :
      e = e' := by
    cases hcall : call.action <;>
      simp only [process, hcall, executeOccurrence, skipOccurrence, liftM_bind_eq, hcheck] at h <;>
      cases h <;> rfl
  by_cases hdone : alreadyProcessed sx.lastOccur call.occurrenceDate = true
  · rw [hfirst (by rw [checkOccurrence, if_pos hdone])]
    simp [hdone]
  · by_cases hrem : sx.remOccur = 0
    · rw [hfirst (by rw [checkOccurrence, if_neg hdone, if_pos hrem])]
      simp [hdone, hrem]
    · obtain ⟨h₁, h₂⟩ := hrest (by rw [checkOccurrence, if_neg hdone, if_neg hrem])
      simp [h₁, h₂, hrem, hdone]

end Effects

end Schedule
