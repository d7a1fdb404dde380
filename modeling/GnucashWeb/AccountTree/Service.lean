import GnucashWeb.Ledger.Book
import GnucashWeb.Lib.Forest
import GnucashWeb.Lib.Statements

/-!
# The account requests

The routes that create, update and move an account, statement by statement: the check that the account
and its new parent are in the active book, the lock of the tree as it is read before the transaction,
and the transaction of the service.  The try-lock of a tree that another request holds fails as any
statement may; the loop of `assertReparentIsAcyclic` has fuel for as many passes as it makes.
-/

/-!
## The account tree

The accounts with their parents and the books that own their trees, the walk up from an account
(`account_ancestors`), the lock of the tree that it finds, and the writes of the account requests.
Slots, preferences and the audit log are left out: no request decides anything by them.
-/

namespace AccountTree

open Ledger (AccountType)
open Rows

/-! ## Rows -/

/-- A guid; it is not empty, so a guid is a condition that holds and null is one that does not. -/
abbrev Guid := { text : String // text ≠ "" }

def textLength (text : String) : ℕ :=
  (text.toList.map fun c => if c.toNat < 0x10000 then 1 else 2).sum

structure Account where
  guid : Guid
  name : String
  accountType : AccountType
  commodityGuid : Option Guid
  commodityScu : ℤ
  nonStdScu : ℤ
  parentGuid : Option Guid
  code : Option String
  description : Option String
  hidden : Option ℤ
  placeholder : Option ℤ
deriving DecidableEq

structure Book where
  guid : Guid
  rootAccountGuid : Guid
  rootTemplateGuid : Guid
deriving DecidableEq

/-- The tables; `commodities` are the guids of the commodities, `splits` the accounts of the splits,
and `reparents` counts the writes of a `parent_guid` that have been committed. -/
structure Db where
  accounts : List Account
  books : List Book
  commodities : List Guid
  splits : List Guid
  reparents : ℕ
deriving DecidableEq

/-! ## Reads -/

/-- `MAX_ACCOUNT_DEPTH`. -/
def maxAccountDepth : ℕ := 200

namespace Db

variable (db : Db)

def account? (guid : Guid) : Option Account := db.accounts.find? fun a => a.guid = guid

def key? (guid : Guid) : Option (Option Guid × String) :=
  (db.account? guid).map fun a => (a.parentGuid, a.name)

def parent? (guid : Guid) : Option Guid := (db.account? guid).bind Account.parentGuid

/-- The rows of `account_ancestors` up to a depth: the account, and its ancestors from below. -/
def ancestors : ℕ → Guid → List Guid
  | 0, _ => []
  | depth + 1, guid =>
    match db.account? guid with
    | none => []
    | some account =>
      match account.parentGuid with
      | none => [account.guid]
      | some parentGuid => account.guid :: ancestors depth parentGuid

/-- The book that has an account for a root, or the account itself. -/
def lockOf (rootGuid : Guid) : Guid :=
  ((db.books.find? fun b => b.rootAccountGuid = rootGuid ∨ b.rootTemplateGuid = rootGuid).map
    Book.guid).getD rootGuid

def resolveBookLockGuidForAccount (accountGuid : Guid) : Guid :=
  db.lockOf ((db.ancestors maxAccountDepth accountGuid).getLast?.getD accountGuid)

/-- `getBookAccountGuids`: the accounts that have a root above them, and the root itself. -/
def bookAccountGuids (rootGuid : Guid) : List Guid :=
  (db.accounts.map Account.guid).filter fun guid =>
    rootGuid ∈ db.ancestors db.accounts.length guid

def lockTree (guid : Guid) : Option Guid :=
  (db.account? guid).bind fun a =>
    (Forest.rootWithin db.parent? db.accounts.length a.guid).map db.lockOf

end Db

structure UpdateAccountInput where
  name : Option String
  code : Option String
  description : Option String
  hidden : Option ℤ
  placeholder : Option ℤ
  parentGuid : Option (Option Guid)
  commodityGuid : Option Guid
  commodityScu : Option ℤ
deriving DecidableEq

def UpdateAccountInput.apply (data : UpdateAccountInput) (a : Account) : Account where
  guid := a.guid
  name := data.name.getD a.name
  accountType := a.accountType
  commodityGuid := data.commodityGuid.or a.commodityGuid
  commodityScu := data.commodityScu.getD a.commodityScu
  nonStdScu := a.nonStdScu
  parentGuid := data.parentGuid.getD a.parentGuid
  code := data.code.or a.code
  description := data.description.or a.description
  hidden := data.hidden.or a.hidden
  placeholder := data.placeholder.or a.placeholder

/-- `accounts.create`: fails when the guid is taken. -/
def insertAccount (a : Account) (db : Db) : Option Db :=
  if (db.account? a.guid).isNone then some { db with accounts := db.accounts ++ [a] } else none

/-- `accounts.update`: fails when there is no such account. -/
def updateAccount (guid : Guid) (data : UpdateAccountInput) (db : Db) : Option Db :=
  if (db.account? guid).isSome then
    some { db with
      accounts := editAt Account.guid guid data.apply db.accounts
      reparents := db.reparents + if data.parentGuid.isSome then 1 else 0 }
  else none

/-! ## Accounts by their guid -/

variable {db : Db} {guid h : Guid}

theorem guid_of_account? {a : Account} (ha : db.account? guid = some a) : a.guid = guid := by
  simpa using List.find?_some ha

theorem parent?_eq (guid : Guid) : db.parent? guid = (db.key? guid).bind Prod.fst := by
  cases ha : db.account? guid <;> simp [Db.parent?, Db.key?, ha]

@[simp] theorem isSome_key? : (db.key? guid).isSome = (db.account? guid).isSome := by simp [Db.key?]

theorem key?_insertAccount {a : Account} (hfresh : db.account? a.guid = none) :
    ({ db with accounts := db.accounts ++ [a] } : Db).key? =
      Function.update db.key? a.guid (some (a.parentGuid, a.name)) := by
  funext g
  by_cases hg : g = a.guid
  · subst hg
    have hnone : db.accounts.find? (fun b => b.guid = a.guid) = none := hfresh
    simp [Db.key?, Db.account?, hnone]
  · rw [Function.update_of_ne hg]
    simp [Db.key?, Db.account?, Ne.symm hg]

theorem key?_updateAccount {a : Account} {data : UpdateAccountInput} {reparents : ℕ}
    (ha : db.account? guid = some a) :
    ({ db with
      accounts := editAt Account.guid guid data.apply db.accounts
      reparents := reparents } : Db).key? =
      Function.update db.key? guid
        (some (data.parentGuid.getD a.parentGuid, data.name.getD a.name)) := by
  funext g
  by_cases hg : g = guid
  · subst hg
    have hfind := find?_editAt (f := data.apply) (fun _ => rfl) ha
    simp [Db.key?, Db.account?, hfind, UpdateAccountInput.apply]
  · rw [Function.update_of_ne hg]
    simp only [Db.key?, Db.account?]
    congr 1
    exact find?_editAt_of_ne (fun _ => rfl) hg

end AccountTree

namespace AccountTree

open Ledger (AccountType)
open Statements Txn

/-! ## Requests -/

structure CreateAccountInput where
  name : String
  accountType : AccountType
  parentGuid : Option Guid
  commodityGuid : Guid
  code : String
  description : String
  hidden : ℤ
  placeholder : ℤ
  commodityScu : ℤ
  nonStdScu : ℤ
deriving DecidableEq

/-- `z.string().length(32)`. -/
def isGuid (guid : Guid) : Bool := textLength guid.val = 32

/-- `z.string().min(1).max(2048)`. -/
def isName (name : String) : Bool := 1 ≤ textLength name ∧ textLength name ≤ 2048

/-- `z.string().max(2048)`. -/
def isText (text : String) : Bool := textLength text ≤ 2048

/-- `z.number().int().min(0).max(1)`. -/
def isFlag (n : ℤ) : Bool := 0 ≤ n ∧ n ≤ 1

/-- `CreateAccountSchema`. -/
def CreateAccountInput.parses (data : CreateAccountInput) : Bool :=
  isName data.name && data.parentGuid.all isGuid && isGuid data.commodityGuid &&
    isText data.code && isText data.description && isFlag data.hidden && isFlag data.placeholder

/-- `UpdateAccountSchema`. -/
def UpdateAccountInput.parses (data : UpdateAccountInput) : Bool :=
  data.name.all isName && data.code.all isText && data.description.all isText &&
    data.hidden.all isFlag && data.placeholder.all isFlag &&
    (data.parentGuid.all fun parentGuid => parentGuid.all isGuid) &&
    data.commodityGuid.all isGuid && data.commodityScu.all fun scu => 1 ≤ scu

/-- What a request takes from outside: the books that its session and its token name, the accounts of
the active book as the cache of the process has them at its two checks, a guid, and fuel. -/
structure Env where
  bookGuids : List Guid
  cached : Option (List Guid)
  cachedForParent : Option (List Guid)
  generatedGuid : Guid
  fuel : ℕ
deriving DecidableEq

inductive Request
  | create (env : Env) (data : CreateAccountInput)
  | update (env : Env) (guid : Guid) (data : UpdateAccountInput)
  | move (env : Env) (guid : Guid) (newParentGuid : Option Guid)

/-! ## Failures and locks -/

inductive Failure
  | noBooks
  | accountNotInBook
  | parentNotInBook (text : String)
  | invalidInput
  | invalidGuid
  | accountNotFound (guid : Guid)
  | parentNotFound (guid : Guid)
  | newParentNotFound (guid : Guid)
  | commodityNotFound (guid : Guid)
  | commodityInUse (splitsCount : ℕ)
  | ownParent
  | circularReference
  | siblingExists (name : String)
  | bookBusy (lockGuid : Guid)
  /-- A statement of the database fails. -/
  | database
deriving DecidableEq

/-- The text of the error that a request ends with; a failed parse has a list of issues, and a
database one of its own. -/
def Failure.message : Failure → Option String
  | noBooks => some "NO_BOOKS"
  | accountNotInBook => some "Account not found"
  | parentNotInBook text => some text
  | invalidInput => none
  | invalidGuid => some "Invalid account GUID"
  | accountNotFound guid => some ("Account not found: " ++ guid.val)
  | parentNotFound guid => some ("Parent account not found: " ++ guid.val)
  | newParentNotFound guid => some ("New parent account not found: " ++ guid.val)
  | commodityNotFound guid => some ("Commodity not found: " ++ guid.val)
  | commodityInUse n => some ("Cannot change commodity: account has " ++ toString n ++
    " transaction split" ++ (if n = 1 then "" else "s") ++
    ". Remove all transactions referencing this account first.")
  | ownParent => some "Cannot move account to be its own parent"
  | circularReference => some "Cannot move account: would create circular reference"
  | siblingExists name =>
    some ("An account named \"" ++ name ++ "\" already exists under this parent")
  | bookBusy _ => some "Another operation on this book is in progress. Try again shortly."
  | database => none

/-- The locks: on a tree, on the row of an account, and on a name under a parent. -/
inductive Key
  | book (lockGuid : Guid)
  | row (guid : Guid)
  | name (parentGuid : Guid) (name : String)
deriving DecidableEq

/-- There is a row to lock only where there is an account. -/
def present (db : Db) : Key → Bool
  | .row guid => (db.account? guid).isSome
  | _ => true

abbrev Tx (α : Type) := Txn Db Key Failure α

/-- What an update or a move has done when it commits: the columns it wrote, the tree whose lock it
holds when it writes a parent, and the tables as its check read the new parent. -/
structure Change where
  guid : Guid
  data : UpdateAccountInput
  lockGuid : Option Guid
  seen : Db

inductive Receipt
  | created (account : Account)
  | changed (c : Change)

def getActiveBookRootGuid (env : Env) : Tx Guid := do
  let book ← select fun db =>
    (env.bookGuids.findSome? fun guid => db.books.find? fun b => b.guid = guid).or db.books.head?
  let book ← expect book .noBooks
  pure book.rootAccountGuid

/-- An account that the cache has is in the book; without a cache its ancestors are read. -/
def isAccountInActiveBook (env : Env) (cached : Option (List Guid)) (accountGuid : Guid) :
    Tx Bool := do
  let rootGuid ← getActiveBookRootGuid env
  match cached with
  | some guids => pure (decide (accountGuid ∈ guids))
  | none =>
    if accountGuid = rootGuid then pure true
    else select fun db => decide (rootGuid ∈ db.ancestors maxAccountDepth accountGuid)

/-! ## Locks and checks -/

/-- The claim of a name under a parent: the lock, and no other account of that name there. -/
def claimSiblingName (parentGuid : Option Guid) (name : String) (selfGuid : Option Guid) : Tx Unit :=
  match parentGuid with
  | none => pure ()
  | some parentGuid =>
    if name = "" then pure ()
    else do
      let _ ← lock (.name parentGuid name)
      let clash ← select fun db => db.accounts.find? fun a =>
        a.parentGuid = some parentGuid ∧ a.name = name ∧ selfGuid ≠ some a.guid
      require (clash = none) (.siblingExists name)

def lockAccountKey (guid : Guid) : Tx Account := do
  let _ ← lock (.row guid)
  let current ← select fun db => db.account? guid
  expect current (.accountNotFound guid)

/-- The loop of `assertReparentIsAcyclic`. -/
def climb (guid : Guid) : ℕ → List Guid → Account → Tx Unit
  | 0, _, _ => fail .database
  | fuel + 1, visited, ancestor =>
    match ancestor.parentGuid with
    | none => pure ()
    | some parentGuid =>
      if parentGuid = guid then fail .circularReference
      else if parentGuid ∈ visited then pure ()
      else do
        let nextAncestor ← select fun db => db.account? parentGuid
        match nextAncestor with
        | none => pure ()
        | some nextAncestor => climb guid fuel (parentGuid :: visited) nextAncestor

/-- The check of a new parent; the tables as it is read are kept for the receipt. -/
def assertReparentIsAcyclic (fuel : ℕ) (guid newParentGuid : Guid) : Tx Db := do
  require (newParentGuid ≠ guid) .ownParent
  let (newParent, seen) ← select fun db => (db.account? newParentGuid, db)
  let newParent ← expect newParent (.newParentNotFound newParentGuid)
  climb guid fuel [newParent.guid] newParent
  pure seen

/-- The check of the parent that an account gets, when it gets one. -/
def checkParent (fuel : ℕ) (guid : Guid) : Option Guid → Tx Db
  | none => select fun db => db
  | some newParentGuid => assertReparentIsAcyclic fuel guid newParentGuid

def expectAccount (guid : Guid) : Tx Account := do
  let account ← select fun db => db.account? guid
  expect account (.accountNotFound guid)

/-! ## The service -/

namespace AccountService

/-- The check that the parent of a new account is there, when it has one. -/
def expectParent : Option Guid → Tx Unit
  | none => pure ()
  | some parentGuid => do
    let parent ← select fun db => db.account? parentGuid
    require parent.isSome (.parentNotFound parentGuid)

/-- `AccountService.create`. -/
def create (env : Env) (data : CreateAccountInput) : Tx Receipt := do
  expectParent data.parentGuid
  let commodity ← select fun db => decide (data.commodityGuid ∈ db.commodities)
  require commodity (.commodityNotFound data.commodityGuid)
  claimSiblingName data.parentGuid data.name none
  let account : Account :=
    { guid := env.generatedGuid
      name := data.name
      accountType := data.accountType
      commodityGuid := some data.commodityGuid
      commodityScu := data.commodityScu
      nonStdScu := data.nonStdScu
      parentGuid := data.parentGuid
      code := some data.code
      description := some data.description
      hidden := some data.hidden
      placeholder := some data.placeholder }
  tryWrite (insertAccount account)
  pure (.created account)

/-- The guard of an update that changes the commodity of its account. -/
def checkCommodity (guid : Guid) (existing : Account) (commodityGuid : Guid) : Tx Unit :=
  onlyIf (some commodityGuid ≠ existing.commodityGuid) do
    let commodity ← select fun db => decide (commodityGuid ∈ db.commodities)
    require commodity (.commodityNotFound commodityGuid)
    let splitsCount ← select fun db => db.splits.count guid
    require (splitsCount = 0) (.commodityInUse splitsCount)

/-- The part of an update that decides where its account lands: nothing when it writes neither a name
nor a parent. -/
def claimDestination (env : Env) (guid : Guid) (data : UpdateAccountInput) : Tx Db :=
  if data.name.isSome ∨ data.parentGuid.isSome then do
    let current ← lockAccountKey guid
    let seen ← checkParent env.fuel guid (data.parentGuid.getD none)
    let destParentGuid := data.parentGuid.getD current.parentGuid
    let destName := data.name.getD current.name
    onlyIf (destParentGuid ≠ current.parentGuid ∨ destName ≠ current.name)
      (claimSiblingName destParentGuid destName (some guid))
    pure seen
  else select fun db => db

/-- The transaction of an update or a move: the lock of the tree when a parent is written, the checks,
and the write. -/
def change (env : Env) (guid : Guid) (data : UpdateAccountInput) (bookLockGuid : Option Guid) :
    Tx Receipt := do
  let _ ← lockTreeOf bookLockGuid
  let seen ← claimDestination env guid data
  tryWrite (updateAccount guid data)
  pure (.changed ⟨guid, data, bookLockGuid, seen⟩)
where
  lockTreeOf : Option Guid → Tx Bool
    | none => pure true
    | some lockGuid => lock (.book lockGuid)

/-- `AccountService.update`. -/
def update (env : Env) (guid : Guid) (data : UpdateAccountInput) : Tx Receipt := do
  require (isGuid guid) .invalidGuid
  let existing ← expectAccount guid
  match data.commodityGuid with
  | none => pure ()
  | some commodityGuid => checkCommodity guid existing commodityGuid
  let bookLockGuid ← select fun db =>
    if data.parentGuid.isSome then some (db.resolveBookLockGuidForAccount guid) else none
  change env guid data bookLockGuid

def moved (newParentGuid : Option Guid) : UpdateAccountInput :=
  ⟨none, none, none, none, none, some newParentGuid, none, none⟩

/-- `AccountService.move`. -/
def move (env : Env) (guid : Guid) (newParentGuid : Option Guid) : Tx Receipt := do
  require (isGuid guid) .invalidGuid
  let _ ← expectAccount guid
  let bookLockGuid ← select fun db => db.resolveBookLockGuidForAccount guid
  change env guid (moved newParentGuid) (some bookLockGuid)

end AccountService

/-! ## The routes -/

/-- The parent of a new account: the root of the active book unless one is given, which has to be in
that book. -/
def parentOfNew (env : Env) : Option Guid → Tx Guid
  | none => getActiveBookRootGuid env
  | some parentGuid => do
    let rootGuid ← getActiveBookRootGuid env
    let guids ← select fun db => env.cached.getD (db.bookAccountGuids rootGuid)
    require (parentGuid ∈ guids)
      (.parentNotInBook "Parent account does not belong to the active book")
    pure parentGuid

/-- `POST /api/accounts`. -/
def createRoute (env : Env) (data : CreateAccountInput) : Tx Receipt := do
  require data.parses .invalidInput
  let parentGuid ← parentOfNew env data.parentGuid
  AccountService.create env { data with parentGuid := some parentGuid }

def requireParentInBook (env : Env) (text : String) : Option Guid → Tx Unit
  | none => pure ()
  | some parentGuid => do
    let inBook ← isAccountInActiveBook env env.cachedForParent parentGuid
    require inBook (.parentNotInBook text)

/-- `PUT /api/accounts/{guid}`. -/
def updateRoute (env : Env) (guid : Guid) (data : UpdateAccountInput) : Tx Receipt := do
  let inBook ← isAccountInActiveBook env env.cached guid
  require inBook .accountNotInBook
  require data.parses .invalidInput
  requireParentInBook env "New parent account not found" (data.parentGuid.getD none)
  AccountService.update env guid data

/-- `PUT /api/accounts/{guid}/move`. -/
def moveRoute (env : Env) (guid : Guid) (newParentGuid : Option Guid) : Tx Receipt := do
  let inBook ← isAccountInActiveBook env env.cached guid
  require inBook .accountNotInBook
  require (newParentGuid.all isGuid) .invalidInput
  requireParentInBook env "Parent account not found" newParentGuid
  AccountService.move env guid newParentGuid

def serve : Request → Script Db Key Failure Receipt
  | .create env data => .single (createRoute env data)
  | .update env guid data => .single (updateRoute env guid data)
  | .move env guid newParentGuid => .single (moveRoute env guid newParentGuid)

abbrev TreeStep := Step Request Failure

abbrev State := System Db Key Failure Receipt

def next : TreeStep → State → Option State := Statements.next present serve

end AccountTree
