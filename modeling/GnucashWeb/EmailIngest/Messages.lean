import Mathlib
import GnucashWeb.Lib.Runs
import GnucashWeb.Lib.Sessions

/-!
# One message of the inbox

The row of one message, the pollers that claim it, ingest its attachments and record the outcome, and
the requests to retry it.  Allowlist matches, the clock, what the intake answers and which statements
fail come with a step.  What is only shown (subject, detail, counts, notifications, the mailbox flag) is
left out.  Beside the row stands a history of what was done.
-/

namespace EmailIngest

open Sessions

/-! ## Rows -/

def INGEST_MAX_ATTEMPTS : ℕ := 3
def INGEST_MAX_MANUAL_RETRIES : ℕ := 2
def INGEST_CLAIM_STALE_MINUTES : ℤ := 15
def INGEST_MANUAL_RETRY_COOLDOWN_MINUTES : ℤ := 10
def INGEST_RETRY_BACKOFF_MINUTES : ℤ := 5

def minutes (n : ℤ) : ℤ := n * 60000

inductive Outcome
  | processing
  | error
  | failedPermanent
  | retryRequested
  | ingested
  | skippedSender
  | noAttachments
deriving DecidableEq

structure IngestOwnerSnapshot where
  userId : ℕ
  bookGuid : Option ℕ
  senderId : Option ℕ
  senderEmail : Option (List Char)
deriving DecidableEq

/-- A row of `gnucash_web_ingest_messages`. -/
structure MessageRow where
  messageKey : List Char
  outcome : Outcome
  attempts : ℕ
  ownerUserId : Option ℕ
  ownerBookGuid : Option ℕ
  ownerSenderId : Option ℕ
  ownerSenderEmail : Option (List Char)
  manualRetries : ℕ
  lastManualRetryAt : Option ℤ
  processedAt : ℤ
deriving DecidableEq

inductive Event
  /-- A claim succeeded, with the owner that it returned. -/
  | claimed (owner : Option ℕ)
  | filed (userId attachment : ℕ)
  | recorded (outcome : Outcome)
deriving DecidableEq

/-- The row, what was done, the last event first, and whether a poller crashed. -/
structure Db where
  row : Option MessageRow
  history : List Event
  crashed : Bool

def ownerSnapshotOf (r : MessageRow) : Option IngestOwnerSnapshot :=
  r.ownerUserId.map fun userId => ⟨userId, r.ownerBookGuid, r.ownerSenderId, r.ownerSenderEmail⟩

/-- Why a failure cannot be retried, without the text. -/
def retryBlocked (r : MessageRow) : Bool :=
  r.outcome ≠ .failedPermanent || r.ownerUserId.isNone ||
    "fallback:".toList.isPrefixOf r.messageKey ||
    INGEST_MAX_MANUAL_RETRIES ≤ r.manualRetries

def retryBackoffMinutes (attempts : ℕ) : ℤ := INGEST_RETRY_BACKOFF_MINUTES * 2 ^ (attempts - 1)

/-! ## Statements -/

def isStale (now : ℤ) (r : MessageRow) : Bool :=
  r.processedAt < now - minutes INGEST_CLAIM_STALE_MINUTES

def isSettled (now : ℤ) (r : MessageRow) : Bool :=
  r.outcome ≠ .processing && r.outcome ≠ .retryRequested &&
      !(r.outcome = .error && r.attempts < INGEST_MAX_ATTEMPTS) ||
    r.outcome = .processing && INGEST_MAX_ATTEMPTS ≤ r.attempts && isStale now r

def isClaimable (now : ℤ) (r : MessageRow) : Bool :=
  r.outcome = .processing && r.attempts < INGEST_MAX_ATTEMPTS && isStale now r ||
    r.outcome = .error && r.attempts < INGEST_MAX_ATTEMPTS &&
      r.processedAt < now - minutes (retryBackoffMinutes r.attempts) ||
    r.outcome = .retryRequested

def newRow (messageKey : List Char) (outcome : Outcome) (now : ℤ) : MessageRow :=
  ⟨messageKey, outcome, 0, none, none, none, none, 0, none, now⟩

def withOwner (owner : Option IngestOwnerSnapshot) (r : MessageRow) : MessageRow :=
  match r.ownerUserId with
  | some _ => r
  | none =>
    { r with
      ownerUserId := owner.map IngestOwnerSnapshot.userId
      ownerBookGuid := owner.bind IngestOwnerSnapshot.bookGuid
      ownerSenderId := owner.bind IngestOwnerSnapshot.senderId
      ownerSenderEmail := owner.bind IngestOwnerSnapshot.senderEmail }

def claimIngestMessage (messageKey : List Char) (now : ℤ) (owner : Option IngestOwnerSnapshot)
    (row : Option MessageRow) : Option MessageRow :=
  match row with
  | none => some { withOwner owner (newRow messageKey .processing now) with attempts := 1 }
  | some r =>
    if isClaimable now r then
      some { withOwner owner r with
        outcome := .processing
        attempts := r.attempts + 1
        processedAt := now }
    else none

def upserted (messageKey : List Char) (outcome : Outcome) (now : ℤ) (row : Option MessageRow) :
    MessageRow :=
  match row with
  | none => newRow messageKey outcome now
  | some r => { r with outcome, processedAt := now }

def Db.recordProcessedMessage (db : Db) (messageKey : List Char) (outcome : Outcome) (now : ℤ) :
    Db :=
  { db with
    row := some (upserted messageKey outcome now db.row)
    history := .recorded outcome :: db.history }

def Db.recordFailureOutcome (db : Db) (messageKey : List Char) (outcome : Outcome) (now : ℤ) : Db :=
  if db.row.any fun r => r.outcome = .ingested then db
  else db.recordProcessedMessage messageKey outcome now

/-- A transient failure is retried while there are attempts left. -/
def failureOutcome (transient : Bool) (attempt : ℕ) : Outcome :=
  if transient && attempt < INGEST_MAX_ATTEMPTS then .error else .failedPermanent

def Db.rearm (db : Db) (now : ℤ) : Db :=
  match db.row with
  | none => db
  | some r =>
    if r.outcome = .failedPermanent ∧ r.ownerUserId.isSome ∧
        ¬"fallback:".toList.isPrefixOf r.messageKey ∧
        r.manualRetries < INGEST_MAX_MANUAL_RETRIES ∧
        (r.lastManualRetryAt.all fun t =>
          t < now - minutes INGEST_MANUAL_RETRY_COOLDOWN_MINUTES) then
      { db with
        row := some { r with
          outcome := .retryRequested
          manualRetries := r.manualRetries + 1
          lastManualRetryAt := some now
          processedAt := now }
        history := .recorded .retryRequested :: db.history }
    else db

def Db.deleteUser (db : Db) (userId : ℕ) : Db :=
  { db with
    row := db.row.map fun r =>
      if r.ownerUserId = some userId then { r with ownerUserId := none } else r }

/-! ## Pollers -/

inductive Phase
  | idle
  /-- Read the states of the messages. -/
  | polling (sender : Option IngestOwnerSnapshot)
  | claiming (sender : Option IngestOwnerSnapshot)
  | fetching (owner : IngestOwnerSnapshot) (bookGuid attempt : ℕ)
  /-- Hand the next attachment to the intake; how many landed, and whether a failure was
  transient. -/
  | ingesting (owner : IngestOwnerSnapshot) (bookGuid attempt next landed : ℕ) (transient : Bool)
  | recording (outcome : Outcome) (attempt : ℕ)
  | failing (transient : Bool) (attempt : ℕ)
  | retrying (requesterUserId : ℕ) (canAdministerBook : Option (ℕ → Bool))
  | rearming

abbrev State := Sys Db Empty Phase

def start : State := ⟨⟨none, [], false⟩, Empty.elim, fun _ => .idle⟩

/-- Whether a call throws, before or after it took effect. -/
inductive Fault
  | none
  | before
  | after
deriving DecidableEq

inductive Intake
  | ok
  | failed (transient : Bool)
  | thrown
deriving DecidableEq

/-- What a step finds; an error that is thrown is transient or not. -/
structure Answer where
  now : ℤ
  fault : Fault
  transient : Bool
  intake : Intake

inductive Step
  | poll (k : ℕ) (sender : Option IngestOwnerSnapshot)
  | requestIngestRetry (k requesterUserId : ℕ) (canAdministerBook : Option (ℕ → Bool))
  | advance (k : ℕ) (a : Answer)
  | crash (k : ℕ)
  | deleteUser (userId : ℕ)

section Next

variable (messageKey : List Char) (defaultBookGuid : Option ℕ) (attachments : ℕ)

def ownerOf (sender : Option IngestOwnerSnapshot) : Option IngestOwnerSnapshot :=
  sender.map fun sender => { sender with bookGuid := sender.bookGuid.or defaultBookGuid }

def afterClaim (r : MessageRow) : Phase :=
  match ownerSnapshotOf r with
  | none => .recording .skippedSender r.attempts
  | some owner =>
    match owner.bookGuid.or defaultBookGuid with
    | none => .failing false r.attempts
    | some bookGuid => .fetching owner bookGuid r.attempts

/-- What a poller does when attachments are left, and when none is. -/
def ingestFrom (owner : IngestOwnerSnapshot) (bookGuid attempt next landed : ℕ)
    (transient : Bool) : Phase :=
  if next < attachments then .ingesting owner bookGuid attempt next landed transient
  else if landed = 0 then .failing transient attempt
  else .recording .ingested attempt

def afterRetry (now : ℤ) (row : Option MessageRow) (requesterUserId : ℕ)
    (canAdministerBook : Option (ℕ → Bool)) : Phase :=
  match row with
  | none => .idle
  | some r =>
    let owner := ownerSnapshotOf r
    let authorized := owner.any (fun o => o.userId = requesterUserId) ||
      (owner.bind IngestOwnerSnapshot.bookGuid).any fun book =>
        canAdministerBook.any fun can => can book
    if authorized && !retryBlocked r && r.lastManualRetryAt.all fun t =>
        minutes INGEST_MANUAL_RETRY_COOLDOWN_MINUTES ≤ now - t then .rearming
    else .idle

def claimNext (k : ℕ) (a : Answer) (sender : Option IngestOwnerSnapshot) (s : State) : State :=
  match claimIngestMessage messageKey a.now (ownerOf defaultBookGuid sender) s.db.row with
  | none => s.goto k (if a.fault = .none then .idle else .failing a.transient 0)
  | some r =>
    s.close k { s.db with
      row := some r
      history := .claimed r.ownerUserId :: s.db.history }
      (if a.fault = .none then afterClaim defaultBookGuid r else .failing a.transient 0)

def ingestNext (k : ℕ) (a : Answer) (owner : IngestOwnerSnapshot)
    (bookGuid attempt next landed : ℕ) (transient : Bool) (s : State) : State :=
  match a.intake with
  | .ok => s.close k { s.db with history := .filed owner.userId next :: s.db.history }
      (ingestFrom attachments owner bookGuid attempt (next + 1) (landed + 1) transient)
  | .failed t => s.goto k
      (ingestFrom attachments owner bookGuid attempt (next + 1) landed (transient || t))
  | .thrown => s.goto k (.failing a.transient attempt)

def advanceNext (k : ℕ) (a : Answer) (s : State) : Option State :=
  match s.phase k with
  | .idle => none
  | .polling sender =>
    if s.db.row.any (isSettled a.now) then some (s.goto k .idle)
    else some (s.goto k (.claiming sender))
  | .claiming sender =>
    if a.fault = .before then some (s.goto k (.failing a.transient 0))
    else some (claimNext messageKey defaultBookGuid k a sender s)
  | .fetching owner bookGuid attempt =>
    if a.fault ≠ .none then some (s.goto k (.failing a.transient attempt))
    else if attachments = 0 then some (s.goto k (.recording .noAttachments attempt))
    else some (s.goto k (ingestFrom attachments owner bookGuid attempt 0 0 false))
  | .ingesting owner bookGuid attempt next landed transient =>
    some (ingestNext attachments k a owner bookGuid attempt next landed transient s)
  | .recording outcome attempt =>
    let after : Phase := if a.fault = .none then .idle else .failing a.transient attempt
    if a.fault = .before then some (s.goto k after)
    else some (s.close k (s.db.recordProcessedMessage messageKey outcome a.now) after)
  | .failing transient attempt =>
    if a.fault = .before then some (s.goto k .idle)
    else some (s.close k
      (s.db.recordFailureOutcome messageKey (failureOutcome transient attempt) a.now) .idle)
  | .retrying requesterUserId canAdministerBook =>
    some (s.goto k (afterRetry a.now s.db.row requesterUserId canAdministerBook))
  | .rearming =>
    if a.fault = .before then some (s.goto k .idle) else some (s.close k (s.db.rearm a.now) .idle)

def next : Step → State → Option State
  | .poll k sender, s =>
    match s.phase k with
    | .idle => some (s.goto k (.polling sender))
    | _ => none
  | .requestIngestRetry k requesterUserId canAdministerBook, s =>
    match s.phase k with
    | .idle => some (s.goto k (.retrying requesterUserId canAdministerBook))
    | _ => none
  | .advance k a, s => advanceNext messageKey defaultBookGuid attachments k a s
  | .crash k, s => some (s.close k { s.db with crashed := true } .idle)
  | .deleteUser userId, s => some { s with db := s.db.deleteUser userId }

end Next

end EmailIngest
