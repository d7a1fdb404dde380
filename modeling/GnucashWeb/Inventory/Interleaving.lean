import GnucashWeb.Inventory.Stock
import GnucashWeb.Lib.Runs
import Mathlib.Algebra.Order.BigOperators.Group.List

/-!
# Concurrent requests on the lines of an invoice

A request reads what is fulfilled and validates its allocations against it before it locks any
item; the locked part does not read that again.  `Sys` is the committed tables with the requests in
flight, `next` one database step.  The locked part reads only locked items and tables that no
request here changes, so it is taken as one step with the commit.

`within_invoiced` is the main result: as long as what a request read is not overtaken by the time
it commits, what is fulfilled stays between zero and what was invoiced.  `oversold` runs two
fulfilments that overtake each other.
-/

open Transact Runs
open Business (Host)

namespace Inventory

/-! ## What is fulfilled -/

/-- What is shipped of an entry less what came back, nothing when it has no movements. -/
def Db.netFulfilled (db : Db) (invoiceGuid entryGuid : String) : ℚ :=
  (db.fulfilledByEntry invoiceGuid entryGuid).getD 0

theorem Db.netFulfilled_eq (db : Db) (invoiceGuid entryGuid : String) :
    db.netFulfilled invoiceGuid entryGuid =
      -((db.movements.filter fun m => m.fulfils invoiceGuid entryGuid).map Movement.quantity).sum := by
  unfold Db.netFulfilled Db.fulfilledByEntry
  dsimp only
  split
  · next h => simp [h]
  · rfl

/-- What is fulfilled of every entry grows by an amount, and the invoices are untouched. -/
structure Fulfils (amount : String → String → ℚ) (db db' : Db) : Prop where
  entries : db'.ledger.entries = db.ledger.entries
  net : ∀ invoiceGuid entryGuid, db'.netFulfilled invoiceGuid entryGuid =
    db.netFulfilled invoiceGuid entryGuid + amount invoiceGuid entryGuid

theorem Fulfils.trans {amount amount' : String → String → ℚ} {db db₁ db' : Db}
    (h₁ : Fulfils amount db db₁) (h₂ : Fulfils amount' db₁ db') :
    Fulfils (fun i e => amount i e + amount' i e) db db' where
  entries := h₂.entries.trans h₁.entries
  net i e := by rw [h₂.net, h₁.net, add_assoc]

theorem Fulfils.congr {amount amount' : String → String → ℚ} {db db' : Db}
    (h : Fulfils amount db db') (heq : ∀ i e, amount i e = amount' i e) : Fulfils amount' db db' where
  entries := h.entries
  net i e := by rw [h.net, heq]

theorem Fulfils.entryQuantity_eq {amount : String → String → ℚ} {db db' : Db}
    (h : Fulfils amount db db') (invoiceGuid entryGuid : String) :
    db'.entryQuantity invoiceGuid entryGuid = db.entryQuantity invoiceGuid entryGuid := by
  rw [Db.entryQuantity, Db.entryQuantity, h.entries]

/-- Neither the movements nor the lines of invoices differ. -/
def SameLines (db db' : Db) : Prop :=
  db'.movements = db.movements ∧ db'.ledger.entries = db.ledger.entries

instance : IsPreorder Db SameLines where
  refl _ := ⟨rfl, rfl⟩
  trans _ _ _ h₁ h₂ := ⟨h₂.1.trans h₁.1, h₂.2.trans h₁.2⟩

theorem SameLines.fulfils {db db' : Db} (h : SameLines db db') : Fulfils (fun _ _ => 0) db db' where
  entries := h.2
  net i e := by rw [Db.netFulfilled_eq, Db.netFulfilled_eq, h.1, add_zero]

theorem preserves_onLedger_entries {α : Type} {m : Business.Tx α}
    (h : ∀ db a db', Completes m db a db' → db'.entries = db.entries) :
    Preserves SameLines (onLedger m) := by
  intro db a db' hm
  obtain ⟨ledger, hledger, rfl⟩ := completes_onLedger.1 hm
  exact ⟨rfl, h _ _ _ hledger⟩

theorem sameLines_writeLedgerTxn (host : Host) (date description : String)
    (splits : List SplitSpec) :
    Preserves SameLines (writeLedgerTxn host date description splits) := by
  unfold writeLedgerTxn
  refine preserves_get.bind fun db => (preserves_liftExcept _).bind fun first =>
    (preserves_liftExcept _).bind fun _ => (preserves_liftExcept _).bind fun currency => ?_
  apply preserves_ite
  · exact preserves_pure _
  · refine (preserves_liftExcept _).bind fun _ => (preserves_onLedger_entries ?_).bind fun _ =>
      (preserves_onLedger_entries ?_).bind fun _ => (preserves_onLedger_entries ?_).bind fun _ =>
        (preserves_onLedger_entries ?_).bind fun _ => preserves_pure _
    · intro db guid db' h
      obtain ⟨-, rfl⟩ := Business.completes_generateGuid.1 h
      rfl
    · intro db u db' h
      obtain ⟨-, rfl⟩ := Business.completes_createTransaction.1 h
      rfl
    · intro db u db' h
      obtain rfl := Business.completes_createSlot.1 h
      rfl
    · intro db u db' h
      obtain rfl := Business.completes_createSplits.1 h
      rfl

theorem sameLines_storeAvgCost {item : Item} {newAvg : ℚ} {db db' : Db} {u : Unit}
    (h : Completes (storeAvgCost item newAvg) db u db') : SameLines db db' := by
  rcases completes_onlyIf.1 h with ⟨-, h⟩ | ⟨-, rfl⟩
  · obtain rfl := completes_updateItemAvgCost.1 h
    exact ⟨rfl, rfl⟩
  · exact refl _

/-- A movement for an entry adds the negative of its quantity to what is fulfilled of it. -/
theorem fulfils_insertMovement {m : MovementInsert} {db db' : Db} {r : Movement}
    {invoiceGuid entryGuid : String} (hinvoice : m.invoiceGuid = some invoiceGuid)
    (hentry : m.entryGuid = some entryGuid)
    (htype : m.movementType = .ship ∨ m.movementType = .returnIn)
    (h : Completes (insertMovement m.row) db r db') :
    Fulfils (fun i e => if i = invoiceGuid ∧ e = entryGuid then -m.quantity else 0) db db' := by
  obtain ⟨-, rfl⟩ := completes_insertMovement.1 h
  refine ⟨rfl, ?_⟩
  intro i e
  have hfulfils : (m.row (db.movementSeq + 1)).fulfils i e =
      decide (i = invoiceGuid ∧ e = entryGuid) := by
    simp only [Movement.fulfils, MovementInsert.row, hinvoice, hentry, htype, Option.some.injEq,
      and_true]
    exact decide_eq_decide.2 (and_congr eq_comm eq_comm)
  rw [Db.netFulfilled_eq, Db.netFulfilled_eq, List.filter_append, List.map_append, List.sum_append,
    neg_add]
  congr 1
  rw [List.filter_singleton, hfulfils]
  by_cases hie : i = invoiceGuid ∧ e = entryGuid
  · simp [hie, MovementInsert.row]
  · simp [hie]

/-! ## The locked parts -/

section Locked

variable {host : Host} {db db' : Db}

def FulfillmentAllocation.given (invoiceGuid : String) (a : FulfillmentAllocation) :
    String → String → ℚ :=
  fun i e => if i = invoiceGuid ∧ e = a.entryGuid then a.quantity else 0

def FulfillInput.given (input : FulfillInput) : String → String → ℚ :=
  fun i e => if i = input.invoiceGuid then newByEntry input.allocations e else 0

theorem sum_given (invoiceGuid : String) (allocations : List FulfillmentAllocation) (i e : String) :
    (allocations.map fun a => a.given invoiceGuid i e).sum =
      if i = invoiceGuid then newByEntry allocations e else 0 := by
  induction allocations with
  | nil => simp [newByEntry]
  | cons a rest ih =>
    rw [List.map_cons, List.sum_cons, ih, FulfillmentAllocation.given]
    unfold newByEntry
    by_cases hi : i = invoiceGuid
    · by_cases he : e = a.entryGuid
      · simp [hi, he]
      · simp [hi, he, Ne.symm he]
    · simp [hi]

theorem fulfils_shipAllocation {input : FulfillInput} {date reference : String}
    {a : FulfillmentAllocation} {r : Movement}
    (h : Completes (shipAllocation host input date reference a) db r db') :
    Fulfils (a.given input.invoiceGuid) db db' := by
  unfold shipAllocation at h
  simp only [completes_bind, completes_liftExcept] at h
  obtain ⟨_, _, hget, item, _, ⟨-, rfl⟩, cost, _, ⟨-, rfl⟩, txnGuid, db₁, hpost, hinsert⟩ := h
  obtain ⟨rfl, rfl⟩ := completes_get.1 hget
  have hsame := preserves_maybePostCogs (sameLines_writeLedgerTxn host) _ _ _ _ _ _ _ _ _ _ hpost
  apply (hsame.fulfils.trans (fulfils_insertMovement rfl rfl (Or.inl rfl) hinsert)).congr
  intro i e
  simp [FulfillmentAllocation.given]

theorem fulfils_returnAllocation {input : FulfillInput} {date reference : String}
    {a : FulfillmentAllocation} {r : Movement × Option (String × ℚ)}
    (h : Completes (returnAllocation host input date reference a) db r db') :
    Fulfils (fun i e => -a.given input.invoiceGuid i e) db db' := by
  unfold returnAllocation at h
  simp only [completes_bind, completes_liftExcept] at h
  obtain ⟨_, _, hget, item, _, ⟨-, rfl⟩, txnGuid, db₁, hpost, _, db₂, havg, movement, db₃, hinsert,
    hresult⟩ := h
  obtain ⟨-, rfl⟩ := completes_pure.1 hresult
  obtain ⟨rfl, rfl⟩ := completes_get.1 hget
  have hsame : SameLines _ _ := IsTrans.trans _ _ _
    (preserves_maybePostReturn (sameLines_writeLedgerTxn host) _ _ _ _ _ _ _ _ _ _ _ hpost)
    (sameLines_storeAvgCost havg)
  apply (hsame.fulfils.trans (fulfils_insertMovement rfl rfl (Or.inr rfl) hinsert)).congr
  intro i e
  simp only [FulfillmentAllocation.given]
  split <;> simp

theorem fulfils_mapM {α β : Type} {f : α → Tx β} {amount : α → String → String → ℚ}
    (hf : ∀ a db b db', Completes (f a) db b db' → Fulfils (amount a) db db') {l : List α}
    {bs : List β} (h : Completes (l.mapM f) db bs db') :
    Fulfils (fun i e => (l.map fun a => amount a i e).sum) db db' := by
  refine h.mapM_induction
    (R := fun l s t => Fulfils (fun i e => (l.map fun a => amount a i e).sum) s t) ?_ ?_
  · intro s
    exact (refl s : SameLines s s).fulfils
  · intro a l b s t u hab hl
    apply ((hf a s b t hab).trans hl).congr
    intro i e
    rw [List.map_cons, List.sum_cons]

theorem fulfils_fulfilLocked {input : FulfillInput} {date id : String} {r : FulfillResult}
    (h : Completes (fulfilLocked host input date id) db r db') : Fulfils input.given db db' := by
  unfold fulfilLocked at h
  rw [completes_get_bind] at h
  simp only [completes_bind, completes_liftExcept] at h
  obtain ⟨_, _, ⟨-, rfl⟩, _, db₁, hlocations, _, _, ⟨-, rfl⟩, _, _, ⟨-, rfl⟩, movements, db₂,
    hship, hresult⟩ := h
  obtain ⟨-, rfl⟩ := completes_pure.1 hresult
  rw [hlocations.forM_checks] at hship
  apply (fulfils_mapM (fun _ _ _ _ => fulfils_shipAllocation) hship).congr
  exact sum_given _ _

theorem fulfils_returnLocked {input : FulfillInput} {date id : String} {r : FulfillResult}
    (h : Completes (returnLocked host input date id) db r db') :
    Fulfils (fun i e => -input.given i e) db db' := by
  unfold returnLocked at h
  rw [completes_get_bind] at h
  simp only [completes_bind, completes_liftExcept] at h
  obtain ⟨_, _, ⟨-, rfl⟩, _, db₁, hlocations, returned, db₂, hreturn, hresult⟩ := h
  obtain ⟨-, rfl⟩ := completes_pure.1 hresult
  rw [hlocations.forM_checks] at hreturn
  apply (fulfils_mapM (fun _ _ _ _ => fulfils_returnAllocation) hreturn).congr
  intro i e
  rw [FulfillInput.given, ← sum_given, List.sum_neg, List.map_map]
  rfl

end Locked

/-! ## Sessions -/

/-- A request in flight, after its validation. -/
structure Session where
  id : ℕ
  isReturn : Bool
  input : FulfillInput
  date : String
  invoiceId : String
  /-- What it read as fulfilled of each entry of its invoice. -/
  read : String → ℚ
  /-- The items that it has still to lock, in this order. -/
  waiting : List ℕ
  held : List ℕ

/-- The committed tables and the requests in flight. -/
structure Sys where
  db : Db
  sessions : List Session

def Sys.session? (s : Sys) (id : ℕ) : Option Session := s.sessions.find? fun u => u.id = id

/-- The request ends: its locks are released. -/
def Sys.close (s : Sys) (id : ℕ) : Sys := { s with sessions := s.sessions.filter fun u => u.id ≠ id }

/-- The items that `lockItems` locks: the rows of the book among those named, by id. -/
def Db.lockOrder (db : Db) (bookGuid : String) (itemIds : List ℕ) : List ℕ :=
  (itemIds.dedup.insertionSort (· ≤ ·)).filter fun id =>
    ∃ i ∈ db.items, i.id = id ∧ i.bookGuid = bookGuid

/-- The reads and the validation of a request; the number of the invoice. -/
def validated (isReturn : Bool) (input : FulfillInput) (db : Db) : Except Failure String :=
  if isReturn then prepareReturn input db else prepareFulfilment input db

/-- The part of a request before its locks: its date and the number of its invoice. -/
def prepare (host : Host) (isReturn : Bool) (input : FulfillInput) (db : Db) :
    Except Failure (String × String) := do
  let date ← parseMovementDate host input.date
  let id ← validated isReturn input db
  return (date, id)

def Session.locked (host : Host) (u : Session) : Tx FulfillResult :=
  if u.isReturn then returnLocked host u.input u.date u.invoiceId
  else fulfilLocked host u.input u.date u.invoiceId

inductive Step
  | validate (id : ℕ) (isReturn : Bool) (input : FulfillInput)
  | lock (id : ℕ)
  | commit (id : ℕ)
  | abort (id : ℕ)

/-- The first item that a request waits for is locked by no other. -/
def Sys.free (s : Sys) (id item : ℕ) : Prop := ∀ u ∈ s.sessions, u.id ≠ id → item ∉ u.held

instance (s : Sys) (id item : ℕ) : Decidable (s.free id item) :=
  inferInstanceAs (Decidable (∀ u ∈ s.sessions, u.id ≠ id → item ∉ u.held))

def Session.lockNext (u : Session) : Session :=
  match u.waiting with
  | [] => u
  | item :: rest => { u with waiting := rest, held := item :: u.held }

def next (host : Host) : Step → Sys → Option Sys
  | .validate id isReturn input, s =>
    if (s.session? id).isSome then none
    else
      match prepare host isReturn input s.db with
      | .error _ => some s
      | .ok (date, invoiceId) =>
        some { s with sessions :=
          { id := id, isReturn := isReturn, input := input, date := date, invoiceId := invoiceId
            read := s.db.netFulfilled input.invoiceGuid
            waiting := s.db.lockOrder input.bookGuid
              (input.allocations.map FulfillmentAllocation.itemId)
            held := [] } :: s.sessions }
  | .lock id, s =>
    match s.session? id with
    | none => none
    | some u =>
      match u.waiting with
      | [] => none
      | item :: _ =>
        if s.free id item then
          some { s with sessions := s.sessions.map fun u => if u.id = id then u.lockNext else u }
        else none
  | .commit id, s =>
    match s.session? id with
    | none => none
    | some u =>
      if u.waiting = [] then some ({ s with db := attempt (u.locked host) s.db }.close id) else none
  | .abort id, s => if (s.session? id).isSome then some (s.close id) else none

/-! ## Within what was invoiced -/

/-- What is fulfilled of each entry is between zero and what was invoiced, up to a tolerance. -/
def WithinInvoiced (t : ℚ) (db : Db) : Prop :=
  ∀ invoiceGuid entryGuid, -t ≤ db.netFulfilled invoiceGuid entryGuid ∧
    ∀ q ∈ db.entryQuantity invoiceGuid entryGuid, db.netFulfilled invoiceGuid entryGuid ≤ q + t

/-- The allocations of a request fit what it read as fulfilled, up to a tolerance. -/
def Fits (t : ℚ) (isReturn : Bool) (input : FulfillInput) (read : String → ℚ) (db : Db) : Prop :=
  ∀ a ∈ input.allocations,
    if isReturn then newByEntry input.allocations a.entryGuid ≤ read a.entryGuid + t
    else ∀ q ∈ db.entryQuantity input.invoiceGuid a.entryGuid,
      read a.entryGuid + newByEntry input.allocations a.entryGuid ≤ q + t

/-- Nothing more was shipped of its entries since a fulfilment read them, and nothing more came
back since a return did. -/
def Session.NotOvertaken (u : Session) (db : Db) : Prop :=
  ∀ a ∈ u.input.allocations,
    if u.isReturn then u.read a.entryGuid ≤ db.netFulfilled u.input.invoiceGuid a.entryGuid
    else db.netFulfilled u.input.invoiceGuid a.entryGuid ≤ u.read a.entryGuid

/-- A request that validates fits, and a request that commits was not overtaken. -/
def Undisturbed (t : ℚ) : Step → Sys → Prop
  | .validate _ isReturn input, s =>
    Fits t isReturn input (s.db.netFulfilled input.invoiceGuid) s.db
  | .commit id, s => ∀ u ∈ s.session? id, u.NotOvertaken s.db
  | _, _ => True

instance (t : ℚ) (isReturn : Bool) (input : FulfillInput) (read : String → ℚ) (db : Db) :
    Decidable (Fits t isReturn input read db) :=
  inferInstanceAs (Decidable (∀ a ∈ input.allocations, ite _ _ _))

instance (u : Session) (db : Db) : Decidable (u.NotOvertaken db) :=
  inferInstanceAs (Decidable (∀ a ∈ u.input.allocations, ite _ _ _))

instance (t : ℚ) : ∀ l s, Decidable (Undisturbed t l s)
  | .validate _ isReturn input, s =>
    inferInstanceAs (Decidable (Fits t isReturn input (s.db.netFulfilled input.invoiceGuid) s.db))
  | .commit id, s => inferInstanceAs (Decidable (∀ u ∈ s.session? id, u.NotOvertaken s.db))
  | .lock _, _ => isTrue trivial
  | .abort _, _ => isTrue trivial

/-- The tables are within what was invoiced, and so would every request in flight keep them. -/
structure Safe (t : ℚ) (s : Sys) : Prop where
  within : WithinInvoiced t s.db
  fits : ∀ u ∈ s.sessions, Fits t u.isReturn u.input u.read s.db
  positive : ∀ u ∈ s.sessions, ∀ a ∈ u.input.allocations, 0 < a.quantity

theorem newByEntry_nonneg {allocations : List FulfillmentAllocation}
    (h : ∀ a ∈ allocations, 0 < a.quantity) (entryGuid : String) :
    0 ≤ newByEntry allocations entryGuid := by
  apply List.sum_nonneg
  intro q hq
  obtain ⟨a, ha, rfl⟩ := List.mem_map.1 hq
  exact (h a (List.mem_of_mem_filter ha)).le

theorem newByEntry_eq_zero {allocations : List FulfillmentAllocation} {entryGuid : String}
    (h : ∀ a ∈ allocations, a.entryGuid ≠ entryGuid) : newByEntry allocations entryGuid = 0 := by
  unfold newByEntry
  rw [List.filter_eq_nil_iff.2 fun a ha => by simpa using h a ha]
  rfl

section Steps

variable {t : ℚ} {host : Host} {db db' : Db}

theorem within_of_fulfils {u : Session} (hwithin : WithinInvoiced t db)
    (hfits : Fits t u.isReturn u.input u.read db)
    (hpos : ∀ a ∈ u.input.allocations, 0 < a.quantity) (hnot : u.NotOvertaken db)
    (h : Fulfils (fun i e => if u.isReturn then -u.input.given i e else u.input.given i e) db db') :
    WithinInvoiced t db' := by
  intro i e
  obtain ⟨hlow, hhigh⟩ := hwithin i e
  have hnonneg := newByEntry_nonneg hpos e
  rw [h.net, h.entryQuantity_eq]
  by_cases hgiven : i = u.input.invoiceGuid ∧ ∃ a ∈ u.input.allocations, a.entryGuid = e
  · obtain ⟨rfl, a, ha, rfl⟩ := hgiven
    have hfit := hfits a ha
    have hread := hnot a ha
    simp only [FulfillInput.given, if_true]
    cases hret : u.isReturn
    case true =>
        simp only [hret, if_true] at hfit hread ⊢
        refine ⟨by linarith, ?_⟩
        intro q hq
        have := hhigh q hq
        linarith
    case false =>
        simp only [hret, Bool.false_eq_true, if_false] at hfit hread ⊢
        refine ⟨by linarith, ?_⟩
        intro q hq
        have := hfit q hq
        linarith
  · have hzero : u.input.given i e = 0 := by
      unfold FulfillInput.given
      split
      · next hi =>
          apply newByEntry_eq_zero
          exact fun a ha he => hgiven ⟨hi, a, ha, he⟩
      · rfl
    rw [hzero, neg_zero, ite_self, add_zero]
    exact ⟨hlow, hhigh⟩

theorem fulfils_locked {u : Session} {r : FulfillResult}
    (h : Completes (u.locked host) db r db') :
    Fulfils (fun i e => if u.isReturn then -u.input.given i e else u.input.given i e) db db' := by
  unfold Session.locked at h
  rcases completes_ite.1 h with ⟨hret, h⟩ | ⟨hret, h⟩
  · simpa [hret] using fulfils_returnLocked h
  · simpa [hret] using fulfils_fulfilLocked h

theorem quantity_pos_of_validateFulfillment {allocations : List FulfillmentAllocation}
    {entryQuantities alreadyFulfilled : String → Option ℚ} {u : Unit}
    (h : validateFulfillmentAllocations allocations entryQuantities alreadyFulfilled = .ok u) :
    ∀ a ∈ allocations, 0 < a.quantity := by
  simp only [validateFulfillmentAllocations, except_bind_eq_ok] at h
  obtain ⟨_, -, _, heach, -⟩ := h
  exact quantity_pos_of_checks heach

theorem positive_of_prepare {isReturn : Bool} {input : FulfillInput} {p : String × String}
    (h : prepare host isReturn input db = .ok p) : ∀ a ∈ input.allocations, 0 < a.quantity := by
  simp only [prepare, except_bind_eq_ok] at h
  obtain ⟨_, -, _, hvalidated, -⟩ := h
  unfold validated at hvalidated
  split at hvalidated
  · simp only [prepareReturn, except_bind_eq_ok] at hvalidated
    obtain ⟨_, -, _, hvalid, -⟩ := hvalidated
    exact quantity_pos_of_validateReturn hvalid
  · simp only [prepareFulfilment, except_bind_eq_ok] at hvalidated
    obtain ⟨_, -, _, hvalid, -⟩ := hvalidated
    exact quantity_pos_of_validateFulfillment hvalid

@[simp] theorem input_lockNext (u : Session) : u.lockNext.input = u.input := by
  unfold Session.lockNext
  split <;> rfl

@[simp] theorem isReturn_lockNext (u : Session) : u.lockNext.isReturn = u.isReturn := by
  unfold Session.lockNext
  split <;> rfl

@[simp] theorem read_lockNext (u : Session) : u.lockNext.read = u.read := by
  unfold Session.lockNext
  split <;> rfl

theorem mem_of_session? {s : Sys} {id : ℕ} {u : Session} (h : s.session? id = some u) :
    u ∈ s.sessions :=
  List.mem_of_find?_eq_some h

theorem Safe.close {s : Sys} (h : Safe t s) (id : ℕ) : Safe t (s.close id) where
  within := h.within
  fits u hu := h.fits u (List.mem_of_mem_filter hu)
  positive u hu := h.positive u (List.mem_of_mem_filter hu)

theorem safe_commit {s : Sys} {u : Session} (hs : Safe t s) (hu : u ∈ s.sessions)
    (hnot : u.NotOvertaken s.db) : Safe t { s with db := attempt (u.locked host) s.db } := by
  refine attempt_induction (P := fun db => Safe t { s with db := db }) hs ?_
  intro r db' hdb'
  have hfulfils := fulfils_locked hdb'
  refine ⟨within_of_fulfils hs.within (hs.fits u hu) (hs.positive u hu) hnot hfulfils, ?_,
    hs.positive⟩
  intro v hv a ha
  have := hs.fits v hv a ha
  simp only [hfulfils.entryQuantity_eq]
  exact this

theorem safe_next (l : Step) (s s' : Sys) (hcond : Undisturbed t l s) (h : next host l s = some s')
    (hs : Safe t s) : Safe t s' := by
  cases l with
  | validate id isReturn input =>
    simp only [next] at h
    split at h
    · cases h
    split at h
    · cases h
      exact hs
    · next p hprepare =>
        cases h
        refine ⟨hs.within, ?_, ?_⟩
        · exact List.forall_mem_cons.2 ⟨hcond, hs.fits⟩
        · exact List.forall_mem_cons.2 ⟨positive_of_prepare hprepare, hs.positive⟩
  | lock id =>
    simp only [next] at h
    split at h
    · cases h
    split at h
    · cases h
    split at h
    · cases h
      refine ⟨hs.within, ?_, ?_⟩
      · simp only [List.forall_mem_map]
        intro u hu
        split
        · simpa using hs.fits u hu
        · exact hs.fits u hu
      · simp only [List.forall_mem_map]
        intro u hu
        split
        · simpa using hs.positive u hu
        · exact hs.positive u hu
    · cases h
  | commit id =>
    simp only [next] at h
    split at h
    · cases h
    next u hu =>
    split at h
    · cases h
      exact (safe_commit hs (mem_of_session? hu) (hcond u hu)).close id
    · cases h
  | abort id =>
    simp only [next] at h
    split at h
    · cases h
      exact hs.close id
    · cases h

theorem safe_run {steps : List Step} {s s' : Sys} (hrun : run (next host) steps s = some s')
    (halong : Along (next host) (Undisturbed t) steps s) (hs : Safe t s) : Safe t s' :=
  invariant_along safe_next hrun halong hs

/-- In every run of requests that fit exactly and that nothing overtakes, what is fulfilled of
each entry is between zero and what was invoiced. -/
theorem within_invoiced {steps : List Step} {s s' : Sys} (hrun : run (next host) steps s = some s')
    (halong : Along (next host) (Undisturbed 0) steps s) (hidle : s.sessions = [])
    (hwithin : WithinInvoiced 0 s.db) : WithinInvoiced 0 s'.db := by
  have hs : Safe 0 s := ⟨hwithin, by simp [hidle], by simp [hidle]⟩
  exact (safe_run hrun halong hs).within

end Steps

/-! ## One line, shipped twice -/

/-- A posted invoice over one widget, with two widgets on the shelf. -/
def oneLine : Db :=
  { ledger := { Business.Db.empty with
      books := [⟨"book", "root", none⟩]
      ownership := [⟨.invoice, "invoice", "book"⟩]
      invoices := [⟨"invoice", "000001", some 2, some "customer", "usd", some 0, some "txn",
        some "receivable", some "lot"⟩]
      entries := [⟨"entry", 0, none, ⟨1, 1⟩, some "invoice", some "sales", ⟨5, 1⟩, ⟨0, 1⟩, none, none,
        false, false, none, none, none, ⟨0, 1⟩, false, false, none⟩] }
    items := [⟨1, "book", "WIDGET", none, none, false, 2, .average, true⟩]
    locations := [⟨1, "book", "Front", true⟩]
    movements := [⟨1, 1, 1, .receive, 2, some 2, "2024-01-01", none, none, none, none, none⟩]
    boms := [], movementSeq := 1 }

def shipLine : FulfillInput :=
  ⟨"book", "invoice", [⟨"entry", 1, 1, 1⟩], some "2024-02-01", some false⟩

/-- Ship the line and take it back, one request after the other. -/
def shipThenReturn : List Step :=
  [.validate 1 false shipLine, .lock 1, .commit 1, .validate 2 true shipLine, .lock 2, .commit 2]

/-- Two requests ship the line, and both validate before either commits. -/
def shipTwice : List Step :=
  [.validate 1 false shipLine, .validate 2 false shipLine, .lock 1, .commit 1, .lock 2, .commit 2]

def idleLine : Sys := ⟨oneLine, []⟩

def afterSteps (steps : List Step) : Sys :=
  (run (next Business.plainHost) steps idleLine).getD idleLine

theorem run_afterSteps {steps : List Step}
    (h : (run (next Business.plainHost) steps idleLine).isSome = true) :
    run (next Business.plainHost) steps idleLine = some (afterSteps steps) := by
  obtain ⟨s, hs⟩ := Option.isSome_iff_exists.1 h
  rw [afterSteps, hs, Option.getD_some]

theorem within_oneLine : WithinInvoiced 0 oneLine := by
  intro i e
  have hzero : oneLine.netFulfilled i e = 0 := by
    simp [Db.netFulfilled_eq, oneLine, Movement.fulfils]
  rw [hzero]
  refine ⟨by norm_num, ?_⟩
  intro q hq
  simp only [Db.entryQuantity, oneLine, Option.mem_def, Option.map_eq_some_iff] at hq
  obtain ⟨entry, hentry, rfl⟩ := hq
  rw [List.mem_singleton.1 (List.mem_of_find?_eq_some hentry)]
  norm_num [Ledger.Amount.toDecimalNumber]

theorem within_invoiced_shipThenReturn : WithinInvoiced 0 (afterSteps shipThenReturn).db :=
  within_invoiced (run_afterSteps (by decide +kernel)) (by decide +kernel) rfl within_oneLine

/-- Both requests commit, and two are shipped where one was invoiced. -/
theorem oversold :
    ¬∀ (host : Host) (steps : List Step) (s s' : Sys), run (next host) steps s = some s' →
      s.sessions = [] → WithinInvoiced 0 s.db → WithinInvoiced 0 s'.db := by
  intro h
  have hrun : run (next Business.plainHost) shipTwice idleLine = some (afterSteps shipTwice) :=
    run_afterSteps (by decide +kernel)
  have hwithin := h _ _ _ _ hrun rfl within_oneLine
  have hnet : (afterSteps shipTwice).db.netFulfilled "invoice" "entry" = 2 := by decide +kernel
  have hquantity : (afterSteps shipTwice).db.entryQuantity "invoice" "entry" = some 1 := by
    decide +kernel
  have := (hwithin "invoice" "entry").2 1 hquantity
  rw [hnet] at this
  norm_num at this

end Inventory
