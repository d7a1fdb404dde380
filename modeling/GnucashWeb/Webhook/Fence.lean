import GnucashWeb.Business.Tables
import GnucashWeb.Lib.Runs
import Mathlib.Logic.Function.Basic

/-!
# Workers on one idempotency key

Any number of workers that use one key, with their database steps in any order.  Between its fence
lock and its commit a worker holds the row lock of the claim, so every other update of the row
waits; a crash or a failed statement rolls the transaction back.  The clock may be set at will.

`exactly_once` says what every run keeps: one write, replays of that write only, a completed key
that nobody claims again, and at most three claims unless an operator re-arms the key.
-/

/-!
## Idempotency claims of inbound webhooks

The row that records the work on one idempotency key, and the statements that read and write it: a
claim, the fence that every later statement of a worker checks, completion, release and the
operator's re-arm.  The unique index makes this the only row of the key.
-/

open Ledger
open Business (Host)

namespace Webhook

/-! ## The row -/

/-- `WEBHOOK_MAX_ATTEMPTS`. -/
def maxAttempts : ℕ := 3

/-- `WEBHOOK_CLAIM_STALE_MINUTES`, in milliseconds. -/
def claimStale : ℤ := 5 * 60 * 1000

inductive ClaimState
  | processing | completed | failed | failedPermanent
deriving DecidableEq, Repr

/-- The response that is stored for replays. -/
structure Payload where
  transactionGuid : String
  date : String
  description : String
  amount : ℚ
deriving DecidableEq, Repr

/-- A row of `gnucash_web_webhook_idempotency`. -/
structure Claim where
  result : Option Payload
  state : ClaimState
  attempts : ℕ
  claimStartedAt : ℤ
  detail : Option String
  completedAt : Option ℤ
deriving DecidableEq, Repr

namespace Claim

/-- The claim is older than a healthy request. -/
def Stale (now : ℤ) (c : Claim) : Prop := c.claimStartedAt < now - claimStale

/-- A failed or stale claim with attempts left. -/
def Reclaimable (now : ℤ) (c : Claim) : Prop :=
  c.result = none ∧ c.attempts < maxAttempts ∧
    (c.state = .failed ∨ c.state = .processing ∧ c.Stale now)

/-- The fence: the attempt with this number is the one in progress. -/
def Owned (attempt : ℕ) (c : Claim) : Prop :=
  c.result = none ∧ c.state = .processing ∧ c.attempts = attempt

/-- A terminal record that an operator may re-arm. -/
def Rearmable (now : ℤ) (c : Claim) : Prop :=
  c.result = none ∧ (c.state = .failedPermanent ∨
    c.state = .processing ∧ maxAttempts ≤ c.attempts ∧ c.Stale now)

instance (now : ℤ) (c : Claim) : Decidable (c.Stale now) :=
  inferInstanceAs (Decidable (_ < _))

instance (now : ℤ) (c : Claim) : Decidable (c.Reclaimable now) :=
  inferInstanceAs (Decidable (_ ∧ _))

instance (attempt : ℕ) (c : Claim) : Decidable (c.Owned attempt) :=
  inferInstanceAs (Decidable (_ ∧ _))

instance (now : ℤ) (c : Claim) : Decidable (c.Rearmable now) :=
  inferInstanceAs (Decidable (_ ∧ _))

/-! ## The statements -/

def reclaim (now : ℤ) (c : Claim) : Claim :=
  { c with
    state := .processing
    attempts := c.attempts + 1
    claimStartedAt := now
    detail := some "Reclaimed after a stale claim or retryable write failure" }

/-- `completeWebhookIdempotency`: store the response. -/
def complete (now : ℤ) (result : Payload) (c : Claim) : Claim :=
  { c with result := some result, state := .completed, completedAt := some now, detail := none }

/-- `releaseWebhookIdempotency`: record a failed attempt, for good when it was the last. -/
def release (now : ℤ) (c : Claim) : Claim :=
  if maxAttempts ≤ c.attempts then
    { c with
      state := .failedPermanent
      detail := some "Webhook write failed repeatedly; retry budget exhausted"
      completedAt := some now }
  else { c with state := .failed, detail := some "Webhook write failed; eligible for retry" }

/-- `rearmWebhookIdempotency`: a fresh budget, by an operator. -/
def rearm (now : ℤ) (userId : ℕ) (stamp : String) (c : Claim) : Claim :=
  { c with
    state := .failed
    attempts := 0
    claimStartedAt := now
    completedAt := none
    detail := some s!"Re-armed by user {userId} at {stamp}" }

@[simp] theorem result_release (now : ℤ) (c : Claim) : (c.release now).result = c.result := by
  unfold release
  split <;> rfl

@[simp] theorem attempts_release (now : ℤ) (c : Claim) : (c.release now).attempts = c.attempts := by
  unfold release
  split <;> rfl

theorem state_release (now : ℤ) (c : Claim) : (c.release now).state ≠ .completed := by
  unfold release
  split <;> simp

end Claim

/-- The claiming statement: a new row, or a reclaimed one; nothing when the key is taken. -/
def insertClaim (now : ℤ) : Option Claim → Option Claim
  | none => some ⟨none, .processing, 1, now, none, none⟩
  | some c => if c.Reclaimable now then some (c.reclaim now) else none

/-- What the claim answers when it does not win the key. -/
inductive Refusal
  | replay (result : Option Payload)
  | terminal (state : ClaimState) (attempts : ℕ) (detail : Option String)
deriving DecidableEq, Repr

/-- The statement that reads the row of a key that was not won. -/
def readClaim (now : ℤ) : Option Claim → Refusal
  | none => .replay none
  | some c =>
    match c.result with
    | some result => .replay (some result)
    | none =>
      if c.state = .failedPermanent then .terminal .failedPermanent c.attempts c.detail
      else if c.state = .processing ∧ maxAttempts ≤ c.attempts ∧ c.Stale now then
        .terminal .processing c.attempts c.detail
      else .replay none

/-! ## The ledger write -/

/-- A checked request: the body, with the currency of the book. -/
structure InboundTransaction where
  date : String
  description : String
  amount : ℚ
  fromGuid : String
  toGuid : String
  currencyGuid : String
deriving DecidableEq, Repr

/-- `toCents`. -/
def toCents (amount : ℚ) : ℤ := mathRound (amount * 100)

/-- The rows that a request writes, with the response it stores. -/
structure LedgerWrite where
  txn : Business.Txn
  splits : List Split
  payload : Payload
deriving DecidableEq, Repr

def inboundSplit (guid txGuid accountGuid : String) (cents : ℤ) : Split :=
  { guid := guid, txGuid := txGuid, accountGuid := accountGuid, memo := "", action := ""
    reconcileState := .n, reconcileDate := none, value := ⟨cents, 100⟩, quantity := ⟨cents, 100⟩
    lotGuid := none }

/-- `writeTransaction`: the amount is debited to one account and credited to the other. -/
def writeTransaction (host : Host) (input : InboundTransaction) (drawn : ℕ) : LedgerWrite :=
  let txGuid := host.generateGuid drawn
  let cents := toCents input.amount
  { txn := ⟨txGuid, input.currencyGuid, "", host.parseNoon input.date, host.now, input.description⟩
    splits := [inboundSplit (host.generateGuid (drawn + 1)) txGuid input.toGuid cents,
      inboundSplit (host.generateGuid (drawn + 2)) txGuid input.fromGuid (-cents)]
    payload := ⟨txGuid, input.date, input.description, input.amount⟩ }

end Webhook

open Runs
open Business (Host)

namespace Webhook

/-! ## Workers -/

inductive Response
  | created (payload : Payload)
  | refused (refusal : Refusal)
  | superseded
  | error
deriving DecidableEq, Repr

inductive Phase
  | idle
  | refused
  | claimed (attempt : ℕ) (input : InboundTransaction)
  | locked (attempt : ℕ) (input : InboundTransaction)
  | written (attempt : ℕ) (write : LedgerWrite)
  /-- Completed in its open transaction, with the row as it will be committed. -/
  | completed (attempt : ℕ) (write : LedgerWrite) (row : Claim)
  | releasing (attempt : ℕ)
  | answered (response : Response)
  | crashed
deriving DecidableEq, Repr

/-- The attempt whose row lock a worker holds. -/
def Phase.fenced : Phase → Option ℕ
  | .locked attempt _ | .written attempt _ | .completed attempt _ _ => some attempt
  | _ => none

/-- The attempt of a worker that has claimed and not committed. -/
def Phase.attempt? : Phase → Option ℕ
  | .claimed attempt _ | .locked attempt _ | .written attempt _ | .completed attempt _ _ =>
    some attempt
  | _ => none

/-- The committed row and ledger writes, and the workers. -/
structure Sys where
  row : Option Claim
  /-- The worker whose open transaction locks the row. -/
  lockedBy : Option ℕ
  workers : ℕ → Phase
  writes : List LedgerWrite
  now : ℤ
  /-- The number of claims that were won. -/
  claims : ℕ

namespace Sys

def fresh : Sys := ⟨none, none, fun _ => .idle, [], 0, 0⟩

def setPhase (s : Sys) (w : ℕ) (p : Phase) : Sys :=
  { s with workers := Function.update s.workers w p }

/-- The transaction of a worker ends, if it has one. -/
def unlock (s : Sys) (w : ℕ) : Sys :=
  { s with lockedBy := if s.lockedBy = some w then none else s.lockedBy }

/-- Whether the row is that of an attempt in progress. -/
def Owns (s : Sys) (attempt : ℕ) : Prop := ∃ c ∈ s.row, c.Owned attempt

instance (s : Sys) (attempt : ℕ) : Decidable (s.Owns attempt) :=
  inferInstanceAs (Decidable (∃ c ∈ s.row, c.Owned attempt))

/-- Update the row when it satisfies a predicate; nothing when another transaction locks it. -/
def updateRow (s : Sys) (p : Claim → Prop) [DecidablePred p] (f : Claim → Claim) : Option Sys :=
  if ∃ c ∈ s.row, p c then
    if s.lockedBy = none then some { s with row := s.row.map f } else none
  else some s

end Sys

inductive Step
  | clock (now : ℤ)
  | claim (w : ℕ) (input : InboundTransaction)
  | look (w : ℕ)
  | lock (w : ℕ)
  | write (w : ℕ) (drawn : ℕ)
  | complete (w : ℕ)
  /-- The commit, whose acknowledgement may be lost. -/
  | commit (w : ℕ) (lost : Bool)
  /-- A statement fails, and the transaction is rolled back. -/
  | fail (w : ℕ)
  | release (w : ℕ)
  | crash (w : ℕ)
  | rearm (userId : ℕ) (stamp : String)
deriving DecidableEq

/-- One step of a worker, of the operator or of the clock. -/
def next (host : Host) : Step → Sys → Option Sys
  | .clock now, s => some { s with now := now }
  | .claim w input, s =>
    if s.workers w = .idle ∧ s.lockedBy = none then
      match insertClaim s.now s.row with
      | some c => some { s.setPhase w (.claimed c.attempts input) with
          row := some c, claims := s.claims + 1 }
      | none => some (s.setPhase w .refused)
    else none
  | .look w, s =>
    match s.workers w with
    | .refused => some (s.setPhase w (.answered (.refused (readClaim s.now s.row))))
    | _ => none
  | .lock w, s =>
    match s.workers w with
    | .claimed attempt input =>
      if s.Owns attempt then
        if s.lockedBy = none then
          some { s.setPhase w (.locked attempt input) with lockedBy := some w }
        else none
      else some (s.setPhase w (.answered .superseded))
    | _ => none
  | .write w drawn, s =>
    match s.workers w with
    | .locked attempt input =>
      some (s.setPhase w (.written attempt (writeTransaction host input drawn)))
    | _ => none
  | .complete w, s =>
    match s.workers w, s.row with
    | .written attempt write, some c =>
      if c.Owned attempt then
        some (s.setPhase w (.completed attempt write (c.complete s.now write.payload)))
      else some ((s.setPhase w (.answered .superseded)).unlock w)
    | .written _ _, none => some ((s.setPhase w (.answered .superseded)).unlock w)
    | _, _ => none
  | .commit w lost, s =>
    match s.workers w with
    | .completed attempt write row =>
      some ({ s.setPhase w (if lost then .releasing attempt else .answered (.created write.payload))
        with row := some row, writes := s.writes ++ [write] }.unlock w)
    | _ => none
  | .fail w, s =>
    match (s.workers w).attempt? with
    | some attempt => some ((s.setPhase w (.releasing attempt)).unlock w)
    | none => none
  | .release w, s =>
    match s.workers w with
    | .releasing attempt =>
      (s.updateRow (Claim.Owned attempt) (Claim.release s.now)).map fun s =>
        s.setPhase w (.answered .error)
    | _ => none
  | .crash w, s => some ((s.setPhase w .crashed).unlock w)
  | .rearm userId stamp, s => s.updateRow (Claim.Rearmable s.now) (Claim.rearm s.now userId stamp)

/-! ## The invariant -/

/-- A fenced worker holds the row lock of its own attempt, and the row stores the response of the
one write there is. -/
structure Inv (s : Sys) : Prop where
  fenced : ∀ w attempt, (s.workers w).fenced = some attempt → s.lockedBy = some w ∧ s.Owns attempt
  pending : ∀ w attempt write row, s.workers w = .completed attempt write row →
    row.result = some write.payload ∧ row.attempts = attempt
  stored : ∀ c ∈ s.row, c.result = s.writes.head?.map LedgerWrite.payload
  completed : ∀ c ∈ s.row, c.state = .completed → c.result.isSome
  fresh : s.row = none → s.writes = []
  once : s.writes.length ≤ 1
  replayed : ∀ w payload, s.workers w = .answered (.refused (.replay (some payload))) →
    ∃ e ∈ s.writes, e.payload = payload

variable {c : Claim}

section Invariant

variable {s : Sys}

theorem inv_fresh : Inv Sys.fresh := by
  constructor <;> simp [Sys.fresh, Phase.fenced]

@[simp] theorem workers_setPhase_self (s : Sys) (w : ℕ) (p : Phase) :
    (s.setPhase w p).workers w = p :=
  Function.update_self ..

variable {w attempt : ℕ}

theorem workers_setPhase_ne (s : Sys) {v : ℕ} (p : Phase) (h : v ≠ w) :
    (s.setPhase w p).workers v = s.workers v :=
  Function.update_of_ne h ..

theorem Inv.setPhase (hs : Inv s) (w : ℕ) {p : Phase} (hfenced : p.fenced = none)
    (hreplayed : ∀ payload, p = .answered (.refused (.replay (some payload))) →
      ∃ e ∈ s.writes, e.payload = payload) : Inv (s.setPhase w p) where
  fenced v attempt hv := by
    by_cases hvw : v = w
    · rw [hvw, workers_setPhase_self, hfenced] at hv
      cases hv
    · rw [workers_setPhase_ne s p hvw] at hv
      exact hs.fenced v attempt hv
  pending v attempt write row hv := by
    by_cases hvw : v = w
    · rw [hvw, workers_setPhase_self] at hv
      rw [hv] at hfenced
      cases hfenced
    · rw [workers_setPhase_ne s p hvw] at hv
      exact hs.pending v attempt write row hv
  stored := hs.stored
  completed := hs.completed
  fresh := hs.fresh
  once := hs.once
  replayed v payload hv := by
    by_cases hvw : v = w
    · rw [hvw, workers_setPhase_self] at hv
      exact hreplayed payload hv
    · rw [workers_setPhase_ne s p hvw] at hv
      exact hs.replayed v payload hv

theorem Inv.unlock (hs : Inv s) (hw : (s.workers w).fenced = none) : Inv (s.unlock w) where
  fenced v attempt hv := by
    obtain ⟨hlock, howns⟩ := hs.fenced v attempt hv
    refine ⟨?_, howns⟩
    have hvw : v ≠ w := by
      rintro rfl
      exact absurd (hw.symm.trans hv) (by simp)
    simp [Sys.unlock, hlock, hvw]
  pending := hs.pending
  stored := hs.stored
  completed := hs.completed
  fresh := hs.fresh
  once := hs.once
  replayed := hs.replayed

/-- While no transaction locks the row, it may change in all but its stored response. -/
theorem Inv.setRow (hs : Inv s) (hfree : s.lockedBy = none)
    (hresult : c.result = s.writes.head?.map LedgerWrite.payload)
    (hstate : c.state ≠ .completed) (claims : ℕ) :
    Inv { s with row := some c, claims := claims } where
  fenced v attempt hv := by
    have hlock := (hs.fenced v attempt hv).1
    rw [hfree] at hlock
    cases hlock
  pending := hs.pending
  stored := by
    rintro _ ⟨⟩
    exact hresult
  completed := by
    rintro _ ⟨⟩ hc
    exact absurd hc hstate
  fresh := by simp
  once := hs.once
  replayed := hs.replayed

theorem updateRow_cases {p : Claim → Prop} [DecidablePred p] {f : Claim → Claim} {t : Sys}
    (h : s.updateRow p f = some t) :
    t = s ∨ ∃ c, s.row = some c ∧ p c ∧ s.lockedBy = none ∧ t = { s with row := some (f c) } := by
  unfold Sys.updateRow at h
  split at h
  · next hc =>
      obtain ⟨c, hrow, hp⟩ := hc
      split at h
      · next hfree =>
          cases h
          exact Or.inr ⟨c, hrow, hp, hfree, by simp [Option.mem_def.1 hrow]⟩
      · cases h
  · cases h
    exact Or.inl rfl

theorem insertClaim_cases {now : ℤ} {row : Option Claim} (h : insertClaim now row = some c) :
    row = none ∧ c.result = none ∧ c.attempts = 1 ∧ c.state = .processing ∨
      ∃ d, row = some d ∧ d.Reclaimable now ∧ c = d.reclaim now := by
  cases row with
  | none =>
    cases h
    exact Or.inl ⟨rfl, rfl, rfl, rfl⟩
  | some d =>
    simp only [insertClaim] at h
    split at h
    · next hd =>
        cases h
        exact Or.inr ⟨d, rfl, hd, rfl⟩
    · cases h

theorem result_of_readClaim {now : ℤ} {row : Option Claim} {payload : Payload}
    (h : readClaim now row = .replay (some payload)) : ∃ c ∈ row, c.result = some payload := by
  cases row with
  | none => cases h
  | some c =>
    simp only [readClaim] at h
    split at h
    · next result hresult =>
        cases h
        exact ⟨c, rfl, hresult⟩
    · split at h
      · cases h
      · split at h <;> cases h

theorem Inv.writes_eq_nil (hs : Inv s) (hc : c ∈ s.row) (hresult : c.result = none) :
    s.writes = [] := by
  have := hs.stored c hc
  rw [hresult] at this
  simpa using this.symm

theorem Inv.fenced_unique (hs : Inv s) {v attempt' : ℕ}
    (hw : (s.workers w).fenced = some attempt) (hv : (s.workers v).fenced = some attempt') :
    v = w := by
  have hlockw := (hs.fenced w attempt hw).1
  have hlockv := (hs.fenced v attempt' hv).1
  rw [hlockw] at hlockv
  exact (Option.some.inj hlockv).symm

theorem Inv.advance (hs : Inv s) {p : Phase}
    (hw : (s.workers w).fenced = some attempt) (hp : p.fenced = some attempt)
    (hpending : ∀ attempt write row, p = .completed attempt write row →
      row.result = some write.payload ∧ row.attempts = attempt) : Inv (s.setPhase w p) where
  fenced v attempt' hv := by
    by_cases hvw : v = w
    · rw [hvw, workers_setPhase_self, hp] at hv
      cases hv
      exact hvw ▸ hs.fenced w attempt hw
    · rw [workers_setPhase_ne s p hvw] at hv
      exact hs.fenced v attempt' hv
  pending v attempt' write row hv := by
    by_cases hvw : v = w
    · rw [hvw, workers_setPhase_self] at hv
      exact hpending attempt' write row hv
    · rw [workers_setPhase_ne s p hvw] at hv
      exact hs.pending v attempt' write row hv
  stored := hs.stored
  completed := hs.completed
  fresh := hs.fresh
  once := hs.once
  replayed v payload hv := by
    by_cases hvw : v = w
    · rw [hvw, workers_setPhase_self] at hv
      rw [hv] at hp
      cases hp
    · rw [workers_setPhase_ne s p hvw] at hv
      exact hs.replayed v payload hv

theorem Inv.lock (hs : Inv s) (hfree : s.lockedBy = none) (howns : s.Owns attempt)
    (input : InboundTransaction) :
    Inv { s.setPhase w (.locked attempt input) with lockedBy := some w } where
  fenced v attempt' hv := by
    by_cases hvw : v = w
    · rw [hvw] at hv ⊢
      replace hv : (Phase.locked attempt input).fenced = some attempt' :=
        workers_setPhase_self s w (.locked attempt input) ▸ hv
      cases hv
      exact ⟨rfl, howns⟩
    · have hlock := (hs.fenced v attempt'
        (workers_setPhase_ne s (.locked attempt input) hvw ▸ hv)).1
      rw [hfree] at hlock
      cases hlock
  pending v attempt' write row hv := by
    by_cases hvw : v = w
    · rw [hvw] at hv
      cases (workers_setPhase_self s w (.locked attempt input)).symm.trans hv
    · exact hs.pending v attempt' write row
        ((workers_setPhase_ne s (.locked attempt input) hvw).symm.trans hv)
  stored := hs.stored
  completed := hs.completed
  fresh := hs.fresh
  once := hs.once
  replayed v payload hv := by
    by_cases hvw : v = w
    · rw [hvw] at hv
      cases (workers_setPhase_self s w (.locked attempt input)).symm.trans hv
    · exact hs.replayed v payload
        ((workers_setPhase_ne s (.locked attempt input) hvw).symm.trans hv)

theorem Inv.commit (hs : Inv s) {write : LedgerWrite} {row : Claim} {p : Phase}
    (hw : s.workers w = .completed attempt write row) (hp : p.fenced = none)
    (hp' : ∀ refusal, p ≠ .answered (.refused refusal)) :
    Inv ({ s.setPhase w p with row := some row, writes := s.writes ++ [write] }.unlock w) := by
  have hfenced : (s.workers w).fenced = some attempt := by rw [hw]; rfl
  obtain ⟨hlock, c, hc, hresult, -, -⟩ := hs.fenced w attempt hfenced
  have hnil := hs.writes_eq_nil hc hresult
  obtain ⟨hrow, -⟩ := hs.pending w attempt write row hw
  have hnone : ∀ v, ((s.setPhase w p).workers v).fenced = none := by
    intro v
    by_cases hvw : v = w
    · rw [hvw, workers_setPhase_self, hp]
    · rw [workers_setPhase_ne s p hvw]
      cases hv : (s.workers v).fenced with
      | none => rfl
      | some attempt' => exact absurd (hs.fenced_unique hfenced hv) hvw
  refine ⟨?_, ?_, ?_, ?_, ?_, ?_, ?_⟩
  · intro v attempt' hv
    cases (hnone v).symm.trans hv
  · intro v attempt' write' row' hv
    have : Phase.fenced (.completed attempt' write' row') = none := hv ▸ hnone v
    cases this
  · rintro _ ⟨⟩
    simpa [Sys.unlock, Sys.setPhase, hnil] using hrow
  · rintro _ ⟨⟩ -
    simp [hrow]
  · simp [Sys.unlock]
  · simp [Sys.unlock, Sys.setPhase, hnil]
  · intro v payload hv
    by_cases hvw : v = w
    · rw [hvw] at hv
      exact absurd ((workers_setPhase_self s w p).symm.trans hv) (hp' _)
    · obtain ⟨e, he, rfl⟩ := hs.replayed v payload ((workers_setPhase_ne s p hvw).symm.trans hv)
      exact ⟨e, List.mem_append_left _ he, rfl⟩

end Invariant

/-! ## One step -/

section Steps

variable {host : Host}

theorem inv_next (l : Step) (s s' : Sys) (h : next host l s = some s') (hs : Inv s) : Inv s' := by
  cases l with
  | clock now =>
    cases h
    exact ⟨hs.fenced, hs.pending, hs.stored, hs.completed, hs.fresh, hs.once, hs.replayed⟩
  | claim w input =>
    simp only [next] at h
    split at h
    · next hidle =>
        split at h
        · next c hc =>
            cases h
            have hrow : Inv { s with row := some c, claims := s.claims + 1 } := by
              obtain ⟨hnone, hresult, -, hstate⟩ | ⟨d, hd, hreclaim, rfl⟩ := insertClaim_cases hc
              · exact hs.setRow hidle.2 (by simp [hresult, hs.fresh hnone]) (by simp [hstate]) _
              · exact hs.setRow (c := d.reclaim s.now) hidle.2 (hs.stored d hd)
                  (by simp [Claim.reclaim]) _
            exact hrow.setPhase w rfl (by simp)
        · cases h
          exact hs.setPhase w rfl (by simp)
    · cases h
  | look w =>
    simp only [next] at h
    split at h
    · cases h
      apply hs.setPhase w rfl
      intro payload hpayload
      simp only [Phase.answered.injEq, Response.refused.injEq] at hpayload
      obtain ⟨c, hc, hresult⟩ := result_of_readClaim hpayload
      have hhead := hs.stored c hc
      rw [hresult] at hhead
      obtain ⟨e, he, rfl⟩ := Option.map_eq_some_iff.1 hhead.symm
      exact ⟨e, List.mem_of_mem_head? he, rfl⟩
    · cases h
  | lock w =>
    simp only [next] at h
    split at h
    · split at h
      · next howns =>
          split at h
          · next hfree =>
              cases h
              exact hs.lock hfree howns _
          · cases h
      · cases h
        exact hs.setPhase w rfl (by simp)
    · cases h
  | write w drawn =>
    simp only [next] at h
    split at h
    · next attempt input hw =>
        cases h
        exact hs.advance (by rw [hw]; rfl) rfl (by simp)
    · cases h
  | complete w =>
    simp only [next] at h
    split at h
    · next attempt write c hw hc =>
        split at h
        · next howned =>
            cases h
            apply hs.advance (by rw [hw]; rfl) rfl
            rintro _ _ _ ⟨⟩
            exact ⟨rfl, howned.2.2⟩
        · cases h
          exact (hs.setPhase w rfl (by simp)).unlock (by simp [Phase.fenced])
    · cases h
      exact (hs.setPhase w rfl (by simp)).unlock (by simp [Phase.fenced])
    · cases h
  | commit w lost =>
    simp only [next] at h
    split at h
    · next attempt write row hw =>
        cases h
        apply hs.commit hw
        · cases lost <;> rfl
        · cases lost <;> simp
    · cases h
  | fail w =>
    simp only [next] at h
    split at h
    · cases h
      exact (hs.setPhase w rfl (by simp)).unlock (by simp [Phase.fenced])
    · cases h
  | release w =>
    simp only [next] at h
    split at h
    · next attempt hw =>
        obtain ⟨t, ht, rfl⟩ := Option.map_eq_some_iff.1 h
        obtain rfl | ⟨c, hc, -, hfree, rfl⟩ := updateRow_cases ht
        · exact hs.setPhase w rfl (by simp)
        · have hrow := hs.setRow hfree ((Claim.result_release s.now c).trans (hs.stored c hc))
            (Claim.state_release s.now c) s.claims
          exact hrow.setPhase w rfl (by simp)
    · cases h
  | crash w =>
    cases h
    exact (hs.setPhase w rfl (by simp)).unlock (by simp [Phase.fenced])
  | rearm userId stamp =>
    obtain rfl | ⟨c, hc, -, hfree, rfl⟩ := updateRow_cases h
    · exact hs
    · exact hs.setRow (c := c.rearm s.now userId stamp) hfree (hs.stored c hc)
        (by simp [Claim.rearm]) s.claims

def Step.isRearm : Step → Bool
  | .rearm _ _ => true
  | _ => false

inductive RowChange (l : Step) (s s' : Sys) : Prop
  | same (row : s'.row = s.row) (claims : s'.claims = s.claims)
  | claimed (c : Claim) (won : insertClaim s.now s.row = some c) (row : s'.row = some c)
      (claims : s'.claims = s.claims + 1)
  | committed (w attempt : ℕ) (write : LedgerWrite) (c : Claim)
      (worker : s.workers w = .completed attempt write c) (row : s'.row = some c)
      (claims : s'.claims = s.claims)
  | updated (c c' : Claim) (old : s.row = some c) (open_ : c.result = none) (row : s'.row = some c')
      (attempts : l.isRearm = false → c'.attempts = c.attempts) (claims : s'.claims = s.claims)

theorem rowChange_next {l : Step} {s s' : Sys} (h : next host l s = some s') : RowChange l s s' := by
  cases l with
  | clock now =>
    cases h
    exact .same rfl rfl
  | claim w input =>
    simp only [next] at h
    split at h
    · split at h
      · next c hc =>
          cases h
          exact .claimed c hc rfl rfl
      · cases h
        exact .same rfl rfl
    · cases h
  | look w =>
    simp only [next] at h
    split at h <;> cases h
    exact .same rfl rfl
  | lock w =>
    simp only [next] at h
    split at h
    · split at h
      · split at h <;> cases h
        exact .same rfl rfl
      · cases h
        exact .same rfl rfl
    · cases h
  | write w drawn =>
    simp only [next] at h
    split at h <;> cases h
    exact .same rfl rfl
  | complete w =>
    simp only [next] at h
    split at h
    · split at h <;> cases h <;> exact .same rfl rfl
    · cases h
      exact .same rfl rfl
    · cases h
  | commit w lost =>
    simp only [next] at h
    split at h
    · next attempt write row hw =>
        cases h
        exact .committed w attempt write row hw rfl rfl
    · cases h
  | fail w =>
    simp only [next] at h
    split at h <;> cases h
    exact .same rfl rfl
  | release w =>
    simp only [next] at h
    split at h
    · obtain ⟨t, ht, rfl⟩ := Option.map_eq_some_iff.1 h
      obtain rfl | ⟨c, hc, howned, -, rfl⟩ := updateRow_cases ht
      · exact .same rfl rfl
      · exact .updated c _ hc howned.1 rfl (fun _ => Claim.attempts_release s.now c) rfl
    · cases h
  | crash w =>
    cases h
    exact .same rfl rfl
  | rearm userId stamp =>
    obtain rfl | ⟨c, hc, hrearmable, -, rfl⟩ := updateRow_cases h
    · exact .same rfl rfl
    · exact .updated c _ hc hrearmable.1 rfl (fun hl => by cases hl) rfl

theorem frozen_next (l : Step) (s s' : Sys) (h : next host l s = some s') (hs : Inv s)
    (hc : s.row = some c) (hresult : c.result.isSome) : s'.row = some c ∧ s'.claims = s.claims := by
  have hne : ∀ d, s.row = some d → d.result ≠ none := by
    intro d hd
    cases hc.symm.trans hd
    exact Option.isSome_iff_ne_none.1 hresult
  cases rowChange_next h with
  | same row claims => exact ⟨row.trans hc, claims⟩
  | claimed d won =>
    obtain ⟨hnone, -⟩ | ⟨d, hd, hreclaim, -⟩ := insertClaim_cases won
    · cases hc.symm.trans hnone
    · exact absurd hreclaim.1 (hne d hd)
  | committed w attempt write d hw =>
    obtain ⟨-, d, hd, hnone, -, -⟩ := hs.fenced w attempt (by rw [hw]; rfl)
    exact absurd hnone (hne d hd)
  | updated d d' hd hopen => exact absurd hopen (hne d hd)

theorem frozen_run {steps : List Step} {s s' : Sys}
    (hrun : run (next host) steps s = some s') (hs : Inv s) (hc : s.row = some c)
    (hresult : c.result.isSome) : s'.row = some c ∧ s'.claims = s.claims := by
  have hinv := invariant (P := fun t => Inv t ∧ t.row = some c ∧ t.claims = s.claims)
    (fun l t t' ht hP => by
      obtain ⟨hrow, hclaims⟩ := frozen_next l t t' ht hP.1 hP.2.1 hresult
      exact ⟨inv_next l t t' ht hP.1, hrow, hclaims.trans hP.2.2⟩) hrun ⟨hs, hc, rfl⟩
  exact hinv.2

/-- Every claim that was won is counted in the row, and they are within the budget. -/
def WithinBudget (s : Sys) : Prop :=
  s.claims = (s.row.map Claim.attempts).getD 0 ∧ s.claims ≤ maxAttempts

theorem budget_next (l : Step) (s s' : Sys) (hl : l.isRearm = false) (h : next host l s = some s')
    (hs : Inv s) (hbudget : WithinBudget s) : WithinBudget s' := by
  obtain ⟨hcount, hle⟩ := hbudget
  unfold WithinBudget
  cases rowChange_next h with
  | same row claims =>
    rw [row, claims]
    exact ⟨hcount, hle⟩
  | claimed c won row claims =>
    rw [row, claims]
    obtain ⟨hnone, -, hone, -⟩ | ⟨d, hd, ⟨-, hlt, -⟩, rfl⟩ := insertClaim_cases won
    · rw [hnone] at hcount
      have hzero : s.claims = 0 := hcount
      simp [hone, hzero, maxAttempts]
    · rw [hd] at hcount
      have hattempts : s.claims = d.attempts := hcount
      exact ⟨by simp [hattempts, Claim.reclaim], by omega⟩
  | committed w attempt write c hw row claims =>
    obtain ⟨-, d, hd, -, -, hattempt⟩ := hs.fenced w attempt (by rw [hw]; rfl)
    obtain ⟨-, hrow⟩ := hs.pending w attempt write c hw
    rw [Option.mem_def.1 hd] at hcount
    rw [row, claims]
    exact ⟨by simp [hcount, hattempt, hrow], hle⟩
  | updated c c' hc hopen row attempts claims =>
    rw [hc] at hcount
    rw [row, claims]
    exact ⟨by simp [hcount, attempts hl], hle⟩

theorem budget_run {steps : List Step} {s : Sys} (hrun : run (next host) steps Sys.fresh = some s)
    (hsteps : ∀ l ∈ steps, l.isRearm = false) : WithinBudget s := by
  have hinv := invariant_along (P := fun t => Inv t ∧ WithinBudget t)
    (fun l t t' hl ht hP => ⟨inv_next l t t' ht hP.1, budget_next l t t' hl ht hP.1 hP.2⟩) hrun
    (along_of_forall hsteps _) ⟨inv_fresh, by simp [WithinBudget, Sys.fresh]⟩
  exact hinv.2

/-- In every run of any workers on one key: at most one ledger write is committed; a replay
answers with the response of a committed write; a completed key is never claimed again; and
unless an operator re-arms the key, at most `maxAttempts` claims are won. -/
theorem exactly_once {steps : List Step} {s : Sys}
    (hrun : run (next host) steps Sys.fresh = some s) :
    s.writes.length ≤ 1 ∧
      (∀ w payload, s.workers w = .answered (.refused (.replay (some payload))) →
        ∃ e ∈ s.writes, e.payload = payload) ∧
      (∀ c, s.row = some c → c.state = .completed → ∀ more s',
        run (next host) more s = some s' → s'.row = some c ∧ s'.claims = s.claims) ∧
      ((∀ l ∈ steps, l.isRearm = false) → s.claims ≤ maxAttempts) := by
  have hs : Inv s := invariant inv_next hrun inv_fresh
  refine ⟨hs.once, hs.replayed, ?_, fun hsteps => (budget_run hrun hsteps).2⟩
  intro c hc hstate more s' hmore
  exact frozen_run hmore hs hc (hs.completed c hc hstate)

end Steps

def oneTransfer : InboundTransaction := ⟨"2026-08-17", "Transfer", 3 / 2, "from", "to", "usd"⟩

/-- A worker claims and stalls; a second takes the stale key over and writes; the first then finds
its claim superseded, and a third request gets the stored response. -/
def takeover : List Step :=
  [.claim 1 oneTransfer, .clock 400000, .claim 2 oneTransfer, .lock 2, .write 2 0, .complete 2,
    .commit 2 false, .lock 1, .claim 3 oneTransfer, .look 3]

def afterTakeover : Sys := (run (next Business.plainHost) takeover Sys.fresh).getD Sys.fresh

theorem exactly_once_takeover : afterTakeover.writes.length ≤ 1 := by
  have hrun : run (next Business.plainHost) takeover Sys.fresh = some afterTakeover := by rfl
  exact (exactly_once hrun).1

example : afterTakeover.workers 1 = .answered .superseded ∧ afterTakeover.writes.length = 1 := by
  decide +kernel

end Webhook
