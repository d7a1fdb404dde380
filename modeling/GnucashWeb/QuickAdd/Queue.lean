import GnucashWeb.QuickAdd.Post

/-!
# Tabs that share a queue

The queue store, the `syncAll` loop of a tab and the messages between the tabs and the server, with
every storage operation, request and answer a step of its own.  A request or an answer is lost when
it is never served or received: the tab gives up, and the server may still serve the request later.
Nothing deletes a transaction on the server.
-/

namespace QuickAdd

/-! ## The queue store -/

inductive QuickAddStatus
  | pending
  | syncing
  | failed
deriving DecidableEq, Repr

structure QueuedQuickAdd where
  localId : List Char
  /-- When the item was queued, in milliseconds. -/
  createdAt : ℕ
  payload : CreateTransactionRequest
  tagNames : List String
  status : QuickAddStatus
  error : Option (List Char)
deriving DecidableEq

/-- The items of the queue, one for each `localId`. -/
abbrev Storage := List QueuedQuickAdd

namespace Storage

def get (localId : List Char) (storage : Storage) : Option QueuedQuickAdd :=
  storage.find? fun item => item.localId = localId

/-- The item takes the place of the one with its `localId`, if there is one. -/
def put (item : QueuedQuickAdd) (storage : Storage) : Storage :=
  if (storage.get item.localId).isSome then
    storage.map fun i => if i.localId = item.localId then item else i
  else storage ++ [item]

def delete (localId : List Char) (storage : Storage) : Storage :=
  storage.filter fun item => item.localId ≠ localId

/-- The order of `listAll`: oldest first. -/
def Older (a b : QueuedQuickAdd) : Prop :=
  if a.createdAt = b.createdAt then a.localId ≤ b.localId else a.createdAt < b.createdAt

instance : DecidableRel Older := fun _ _ => inferInstanceAs (Decidable (ite _ _ _))

def listAll (storage : Storage) : List QueuedQuickAdd := storage.insertionSort Older

end Storage

/-- The item that `setStatus` writes back. -/
def QueuedQuickAdd.withStatus (item : QueuedQuickAdd) (status : QuickAddStatus)
    (error : Option (List Char)) : QueuedQuickAdd :=
  { item with status := status, error := error }

/-! ## Tabs, messages and the system -/

/-- How a tab goes on after `setStatus`. -/
inductive After
  | stop
  | post (current : QueuedQuickAdd) (rest : List (List Char))
  | loop (rest : List (List Char))
deriving DecidableEq

/-- How far a tab has come; `rest` are the candidates that its loop has left. -/
inductive Phase
  | idle
  | looping (rest : List (List Char))
  /-- `setStatus` before it reads the item. -/
  | marking (localId : List Char) (status : QuickAddStatus) (error : Option (List Char))
    (after : After)
  /-- `setStatus` before it writes the item. -/
  | putting (item : QueuedQuickAdd) (after : After)
  | posting (current : QueuedQuickAdd) (rest : List (List Char))
  | posted (ticket : ℕ) (current : QueuedQuickAdd) (rest : List (List Char))
  | tagging (current : QueuedQuickAdd) (rest : List (List Char))
  | tagged (ticket : ℕ) (current : QueuedQuickAdd) (rest : List (List Char))
  | deleting (current : QueuedQuickAdd) (rest : List (List Char))
deriving DecidableEq

def After.phase : After → Phase
  | .stop => .idle
  | .post current rest => .posting current rest
  | .loop rest => .looping rest

/-- How a pass goes on with the result of `postQuickAdd`. -/
def PostResult.phase (current : QueuedQuickAdd) (rest : List (List Char)) : PostResult → Phase
  | .synced => .deleting current rest
  | .failed error => .marking current.localId .failed (some error) (.loop rest)

def Phase.failing : Phase → Bool
  | .marking _ .failed _ (.loop _) => true
  | _ => false

/-- A request on its way, or its answer; `reposted` says that the server held the transaction when
it served the post. -/
inductive Message
  | post (request : CreateTransactionRequest)
  | answer (guid : List Char) (res : Response) (reposted : Bool)
  | putTags (guid : List Char) (tags : List String)
  | tagsAnswer (guid : List Char) (tags : List String) (status : ℕ)
deriving DecidableEq

/-- The store, the tabs, the messages by ticket and the server. -/
structure Sys where
  storage : Storage
  tabs : ℕ → Phase
  mail : ℕ → Option Message
  server : Server
  /-- What was queued under each `localId` ever used. -/
  content : List Char → Option (CreateTransactionRequest × List String)
  /-- The items that left the queue through a sync. -/
  left : List (List Char)

namespace Sys

def setPhase (s : Sys) (tab : ℕ) (p : Phase) : Sys :=
  { s with tabs := Function.update s.tabs tab p }

def setMail (s : Sys) (ticket : ℕ) (m : Message) : Sys :=
  { s with mail := Function.update s.mail ticket (some m) }

end Sys

/-! ## Steps -/

inductive Step
  | enqueue (localId : List Char) (createdAt : ℕ) (payload : CreateTransactionRequest)
    (tagNames : List String)
  | remove (localId : List Char)
  /-- `markSyncing`, `markFailed` or `retry`. -/
  | mark (tab : ℕ) (localId : List Char) (status : QuickAddStatus) (error : Option (List Char))
  | syncAll (tab : ℕ) (includeFailed : Bool)
  /-- The next storage operation of a tab. -/
  | advance (tab : ℕ)
  | send (tab : ℕ) (ticket : ℕ)
  | servePost (ticket : ℕ) (fate : Fate)
  | serveTags (ticket : ℕ) (fate : TagFate)
  | receive (tab : ℕ) (readable : Bool)
  /-- The fetch throws. -/
  | giveUp (tab : ℕ) (error : List Char)
  | close (tab : ℕ)
  /-- Another request creates a transaction. -/
  | record (guid : List Char)

def advance (tab : ℕ) (s : Sys) : Option Sys :=
  match s.tabs tab with
  | .looping [] => some (s.setPhase tab .idle)
  | .looping (localId :: rest) =>
    match s.storage.get localId with
    | none => some (s.setPhase tab (.looping rest))
    | some current =>
      if current.status = .syncing then some (s.setPhase tab (.looping rest))
      else some (s.setPhase tab (.marking current.localId .syncing none (.post current rest)))
  | .marking localId status error after =>
    match s.storage.get localId with
    | none => some (s.setPhase tab after.phase)
    | some item => some (s.setPhase tab (.putting (item.withStatus status error) after))
  | .putting item after =>
    some { s.setPhase tab after.phase with storage := s.storage.put item }
  | .deleting current rest =>
    some { s.setPhase tab (.looping rest) with
      storage := s.storage.delete current.localId, left := s.left ++ [current.localId] }
  | _ => none

/-- A tab sends its request under a ticket that nobody has used. -/
def send (tab ticket : ℕ) (s : Sys) : Option Sys :=
  if s.mail ticket = none then
    match s.tabs tab with
    | .posting current rest =>
      some ((s.setPhase tab (.posted ticket current rest)).setMail ticket (.post current.payload))
    | .tagging current rest =>
      some ((s.setPhase tab (.tagged ticket current rest)).setMail ticket
        (.putTags current.payload.guid current.tagNames))
    | _ => none
  else none

def servePost (ticket : ℕ) (fate : Fate) (s : Sys) : Option Sys :=
  match s.mail ticket with
  | some (.post request) =>
    let served := POST fate request s.server
    some { s.setMail ticket (.answer request.guid served.1
      (request.guid ∈ s.server.transactions)) with server := served.2 }
  | _ => none

def serveTags (ticket : ℕ) (fate : TagFate) (s : Sys) : Option Sys :=
  match s.mail ticket with
  | some (.putTags guid tags) =>
    let served := PUT fate guid tags s.server
    some { s.setMail ticket (.tagsAnswer guid tags served.1) with server := served.2 }
  | _ => none

def receive (tab : ℕ) (readable : Bool) (s : Sys) : Option Sys :=
  match s.tabs tab with
  | .posted ticket current rest =>
    match s.mail ticket with
    | some (.answer _ res _) =>
      if res.accepted then
        some (s.setPhase tab
          (if current.tagNames = [] then .deleting current rest else .tagging current rest))
      else some (s.setPhase tab ((classify res readable).phase current rest))
    | _ => none
  | .tagged ticket current rest =>
    match s.mail ticket with
    | some (.tagsAnswer _ _ status) =>
      some (s.setPhase tab ((classifyTags status).phase current rest))
    | _ => none
  | _ => none

def giveUp (tab : ℕ) (error : List Char) (s : Sys) : Option Sys :=
  match s.tabs tab with
  | .posting current rest | .posted _ current rest | .tagging current rest
  | .tagged _ current rest =>
    some (s.setPhase tab ((PostResult.failed error).phase current rest))
  | _ => none

/-- One step of a tab, of the server or of the user. -/
def next : Step → Sys → Option Sys
  | .enqueue localId createdAt payload tagNames, s =>
    if s.content localId = none then
      some { s with
        storage := s.storage.put ⟨localId, createdAt, payload, tagNames, .pending, none⟩
        content := Function.update s.content localId (some (payload, tagNames)) }
    else none
  | .remove localId, s => some { s with storage := s.storage.delete localId }
  | .mark tab localId status error, s =>
    if s.tabs tab = .idle then some (s.setPhase tab (.marking localId status error .stop)) else none
  | .syncAll tab includeFailed, s =>
    if s.tabs tab = .idle then
      let statuses := if includeFailed then [.pending, .failed] else [QuickAddStatus.pending]
      some (s.setPhase tab (.looping
        ((s.storage.listAll.filter fun item => item.status ∈ statuses).map
          QueuedQuickAdd.localId)))
    else none
  | .advance tab, s => advance tab s
  | .send tab ticket, s => send tab ticket s
  | .servePost ticket fate, s => servePost ticket fate s
  | .serveTags ticket fate, s => serveTags ticket fate s
  | .receive tab readable, s => receive tab readable s
  | .giveUp tab error, s => giveUp tab error s
  | .close tab, s => some (s.setPhase tab .idle)
  | .record guid, s =>
    if guid ∈ s.server.transactions then none
    else some { s with server := { s.server with
      transactions := s.server.transactions ++ [guid] } }

end QuickAdd
