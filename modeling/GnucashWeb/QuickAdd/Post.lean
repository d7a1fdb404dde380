import Mathlib
import GnucashWeb.Lib.Calendar

/-!
# Posting a quick-add transaction

The two requests that a sync pass sends, the answers of the server, and how the client classifies
them.  The checks in front of the insert read the session, the period lock and the accounts of the
book, so which of them refuses a request is left open here; their texts are not.

`POST_cases` says what an answer means: it is accepted and new, or a refusal, and
`not_alreadySynced_response` that the client takes no refusal for a duplicate.  The violated primary
key of a re-post is such a refusal.
-/

namespace QuickAdd

open Text Calendar

/-! ## Requests and responses -/

/-- `isValidGuid`: 32 hexadecimal digits of either case. -/
def isValidGuid (guid : List Char) : Bool :=
  guid.length = 32 && guid.all fun c => c.isDigit || ('a' ≤ c.toLower && c.toLower ≤ 'f')

/-- A request of the queue carries the GUID that the client has drawn. -/
structure CreateTransactionRequest where
  guid : List Char
  valid : isValidGuid guid = true
deriving DecidableEq, Repr

structure Response where
  status : ℕ
  body : List Char
deriving DecidableEq, Repr

/-- `res.ok`. -/
def Response.ok (res : Response) : Bool := 200 ≤ res.status && res.status < 300

/-! ## The texts of the errors -/

/-- What `validateTransaction` can report. -/
inductive ValidationError
  | currencyRequired
  | currencyFormat
  | postDateRequired
  | postDateFormat
  | descriptionRequired
  | splitsRequired
  | tooFewSplits
  | accountRequired (index : ℕ)
  | accountFormat (index : ℕ)
  | valueRequired (index : ℕ)
  | denominatorZero (index : ℕ)
  | quantityDenominatorZero (index : ℕ)
  | reconcileState (index : ℕ)
  | unsafeNumerator
  | unsafeDenominator
  | balanceDenominatorZero
  | unbalanced (num : ℤ) (denom : ℕ)
deriving DecidableEq, Repr

namespace ValidationError

def splitField (index : ℕ) (name : String) : List Char :=
  "splits[".toList ++ (natDigits index ++ ']' :: '.' :: name.toList)

def splitMessage (index : ℕ) (text : String) : List Char :=
  "Split ".toList ++ (natDigits (index + 1) ++ ':' :: ' ' :: text.toList)

def field : ValidationError → List Char
  | currencyRequired | currencyFormat => "currency_guid".toList
  | postDateRequired | postDateFormat => "post_date".toList
  | descriptionRequired => "description".toList
  | splitsRequired | tooFewSplits | unsafeNumerator | unsafeDenominator | balanceDenominatorZero
  | unbalanced _ _ => "splits".toList
  | accountRequired index | accountFormat index => splitField index "account_guid"
  | valueRequired index => splitField index "value_num"
  | denominatorZero index => splitField index "value_denom"
  | quantityDenominatorZero index => splitField index "quantity_denom"
  | reconcileState index => splitField index "reconcile_state"

def message : ValidationError → List Char
  | currencyRequired => "Currency is required".toList
  | currencyFormat => "Invalid currency GUID format".toList
  | postDateRequired => "Post date is required".toList
  | postDateFormat => "Invalid post date format".toList
  | descriptionRequired => "Description is required".toList
  | splitsRequired => "Splits are required".toList
  | tooFewSplits => "At least 2 splits are required (double-entry)".toList
  | accountRequired index => splitMessage index "Account is required"
  | accountFormat index => splitMessage index "Invalid account GUID format"
  | valueRequired index => splitMessage index "Value is required"
  | denominatorZero index => splitMessage index "Value denominator must be non-zero"
  | quantityDenominatorZero index => splitMessage index "Quantity denominator must be non-zero"
  | reconcileState index => splitMessage index "Invalid reconcile state"
  | unsafeNumerator => "Split value numerator must be a safe integer".toList
  | unsafeDenominator => "Split value denominator must be a safe integer".toList
  | balanceDenominatorZero => "Split value denominator must be non-zero".toList
  | unbalanced num denom =>
    "Splits must sum to zero exactly (current sum".toList ++ ':' ::
      (' ' :: intDigits num ++ '/' :: (natDigits denom ++ [')']))

end ValidationError

inductive Role
  | readonly
  | timekeeper
deriving DecidableEq, Repr

def Role.text : Role → List Char
  | readonly => "readonly".toList
  | timekeeper => "timekeeper".toList

/-- The ways in which a post ends without a transaction. -/
inductive Refusal
  | unauthorized
  | invalidToken
  | tokenRole (role : Role)
  | noActiveBook
  | noAccess
  | userRole (role : Role)
  | invalid (errors : List ValidationError)
  | periodLocked (lockDate : UtcDate)
  | accountNotFound
  | failed
deriving DecidableEq

/-- The JSON text of an object with an `error` and the text after it. -/
def errorBody (error rest : List Char) : List Char :=
  "\x7b\"error\":".toList ++ '"' :: (error ++ '"' :: rest)

/-- `summarizeValidationErrors`. -/
def summarizeValidationErrors (errors : List ValidationError) : List Char :=
  [';', ' '].intercalate (errors.map ValidationError.message)

def errorEntry (error : ValidationError) : List Char :=
  "\x7b\"field\":".toList ++ '"' :: (error.field ++ '"' ::
    (",\"message\":".toList ++ '"' :: (error.message ++ '"' :: "\x7d".toList)))

namespace Refusal

def status : Refusal → ℕ
  | unauthorized | invalidToken => 401
  | tokenRole _ | noAccess | userRole _ => 403
  | noActiveBook | invalid _ | periodLocked _ => 400
  | accountNotFound => 404
  | failed => 500

/-- The `error` of the body. -/
def error : Refusal → List Char
  | unauthorized => "Unauthorized".toList
  | invalidToken => "Invalid or expired API token".toList
  | tokenRole role => "Requires edit role, this token grants".toList ++ ' ' :: role.text
  | noActiveBook => "No active book selected".toList
  | noAccess => "No access to this book".toList
  | userRole role => "Requires edit role, you have".toList ++ ' ' :: role.text
  | invalid errors => summarizeValidationErrors errors
  | periodLocked lockDate =>
    "Period locked: transactions on or before ".toList ++ (isoDay lockDate ++ " are closed".toList)
  | accountNotFound => "One or more accounts not found in this book".toList
  | failed => "Failed to create transaction".toList

/-- The body after its `error`. -/
def rest : Refusal → List Char
  | invalid errors =>
    ",\"errors\":".toList ++ '[' :: ([','].intercalate (errors.map errorEntry) ++ ']' :: ['}'])
  | periodLocked _ => ",\"code\":\"PERIOD_LOCKED\"\x7d".toList
  | _ => "\x7d".toList

def response (refusal : Refusal) : Response :=
  ⟨refusal.status, errorBody refusal.error refusal.rest⟩

end Refusal

/-! ## The server -/

/-- What the server holds of the transactions and of their tags. -/
structure Server where
  transactions : List (List Char)
  tagged : List (List Char × List String)
deriving DecidableEq

inductive Fate
  | refused (refusal : Refusal)
  | created
  /-- A step after the commit throws: the account paths or the audit log. -/
  | createdThenFailed
deriving DecidableEq

/-- `POST /api/transactions`: the insert fails when a row with the GUID exists.  The client does not
read the body of a 201. -/
def POST (fate : Fate) (request : CreateTransactionRequest) (server : Server) :
    Response × Server :=
  match fate with
  | .refused refusal => (refusal.response, server)
  | .created =>
    if request.guid ∈ server.transactions then (Refusal.failed.response, server)
    else (⟨201, []⟩, { server with transactions := server.transactions ++ [request.guid] })
  | .createdThenFailed =>
    if request.guid ∈ server.transactions then (Refusal.failed.response, server)
    else
      (Refusal.failed.response, { server with
        transactions := server.transactions ++ [request.guid] })

/-- What becomes of a request that sets tags. -/
inductive TagFate
  | unauthorized
  | forbidden
  | invalid
  | failed
  | accepted
deriving DecidableEq, Repr

/-- `PUT /api/transactions/GUID/tags`, of which the client reads the status alone. -/
def PUT (fate : TagFate) (guid : List Char) (tags : List String) (server : Server) : ℕ × Server :=
  match fate with
  | .unauthorized => (401, server)
  | .forbidden => (403, server)
  | .invalid => if guid ∈ server.transactions then (400, server) else (404, server)
  | .failed => (500, server)
  | .accepted =>
    if guid ∈ server.transactions then
      (200, { server with tagged := server.tagged ++ [(guid, tags)] })
    else (404, server)

/-! ## The client -/

/-- The alternatives of `ALREADY_SYNCED_RE`. -/
def alreadySyncedTexts : List (List Char) :=
  ["duplicate".toList, "already exists".toList, "unique constraint".toList]

/-- `ALREADY_SYNCED_RE.test`, which ignores case. -/
def alreadySynced (body : List Char) : Prop :=
  ∃ text ∈ alreadySyncedTexts, text <:+: body.map Char.toLower

instance (body : List Char) : Decidable (alreadySynced body) :=
  inferInstanceAs (Decidable (∃ text ∈ alreadySyncedTexts, text <:+: body.map Char.toLower))

/-- `PostResult`: whether a transaction is on the server, or the error. -/
inductive PostResult
  | synced
  | failed (error : List Char)
deriving DecidableEq

/-- The answers to a post after which `postQuickAdd` goes on to the tags. -/
def Response.accepted (res : Response) : Bool := res.ok || res.status = 409

/-- What `postQuickAdd` makes of an answer that is not accepted; the body may be unreadable. -/
def classify (res : Response) (readable : Bool) : PostResult :=
  let body := if readable then res.body else []
  if alreadySynced body then .synced
  else
    let detail := if body = [] then [] else ": ".toList ++ body.take 200
    .failed ("HTTP ".toList ++ (natDigits res.status ++ detail))

/-- What `postQuickAdd` makes of the answer to the tags. -/
def classifyTags (status : ℕ) : PostResult :=
  if 200 ≤ status ∧ status < 300 then .synced
  else .failed ("Transaction saved but trip tag failed: HTTP ".toList ++ natDigits status)

/-! ## No error passes for a duplicate -/

/-- A character of none of the alternatives. -/
def Joint (c : Char) : Prop := ∀ text ∈ alreadySyncedTexts, c.toLower ∉ text

instance (c : Char) : Decidable (Joint c) :=
  inferInstanceAs (Decidable (∀ text ∈ alreadySyncedTexts, c.toLower ∉ text))

variable {c : Char} {ys : List Char}

theorem letter_of_mem {text : List Char} (htext : text ∈ alreadySyncedTexts)
    (hc : c ∈ text) : c.isAlpha = true ∨ c = ' ' := by
  have hall : (alreadySyncedTexts.all fun text => text.all fun d => d.isAlpha || d = ' ') = true := by
    decide
  simpa using List.all_eq_true.1 (List.all_eq_true.1 hall text htext) c hc

theorem joint_of_not_isAlpha (h : c.isAlpha = false) (hblank : c ≠ ' ') : Joint c := by
  have hupper : c.isUpper = false := by
    rw [Char.isAlpha, Bool.or_eq_false_iff] at h
    exact h.1
  have hlower : c.toLower = c := by
    unfold Char.toLower
    rw [dif_neg]
    rintro ⟨hA, hZ⟩
    have hc : c.isUpper = true := decide_eq_true ⟨hA, hZ⟩
    rw [hupper] at hc
    cases hc
  intro text htext hmem
  rw [hlower] at hmem
  rcases letter_of_mem htext hmem with hc | hc
  · rw [h] at hc
    cases hc
  · exact hblank hc

theorem joint_of_isDigit (h : c.isDigit = true) : Joint c := by
  have hdigit : 48 ≤ c.toNat ∧ c.toNat ≤ 57 := by
    simpa [Char.isDigit, UInt32.le_iff_toNat_le] using h
  refine joint_of_not_isAlpha ?_ (by rintro rfl; cases h)
  by_contra halpha
  simp [Char.isAlpha, Char.isUpper, Char.isLower, UInt32.le_iff_toNat_le] at halpha
  have hval : c.val.toNat = c.toNat := rfl
  omega

theorem alreadySynced_append_cons {xs : List Char} (hc : Joint c) :
    alreadySynced (xs ++ c :: ys) ↔ alreadySynced xs ∨ alreadySynced ys := by
  unfold alreadySynced
  rw [← exists_or]
  refine exists_congr fun text => ?_
  rw [← and_or_left, List.map_append, List.map_cons]
  exact and_congr_right fun htext => infix_append_cons_iff (hc text htext)

theorem alreadySynced_append_append {xs ds : List Char} (hne : ds ≠ []) (hd : ∀ d ∈ ds, Joint d) :
    alreadySynced (xs ++ (ds ++ ys)) ↔ alreadySynced xs ∨ alreadySynced ys := by
  unfold alreadySynced
  rw [← exists_or]
  refine exists_congr fun text => ?_
  rw [← and_or_left, List.map_append, List.map_append]
  refine and_congr_right fun htext => infix_append_append_iff (by simpa using hne) ?_
  intro e he
  obtain ⟨d, hmem, rfl⟩ := List.mem_map.1 he
  exact hd d hmem text htext

theorem joint_natDigits {n : ℕ} : ∀ d ∈ natDigits n, Joint d :=
  fun _ h => joint_of_isDigit (isDigit_of_mem_natDigits h)

theorem joint_intDigits {n : ℤ} : ∀ d ∈ intDigits n, Joint d := by
  intro d h
  cases n with
  | ofNat n => exact joint_natDigits d h
  | negSucc n =>
    rcases List.mem_cons.1 h with rfl | h
    · decide
    · exact joint_natDigits d h

theorem intDigits_ne_nil (n : ℤ) : intDigits n ≠ [] := by
  cases n with
  | ofNat n => exact natDigits_ne_nil n
  | negSucc n => exact List.cons_ne_nil _ _

theorem joint_isoDay {d : UtcDate} : ∀ c ∈ isoDay d, Joint c := by
  intro c h
  simp only [isoDay, List.mem_append, List.mem_cons] at h
  rcases h with h | rfl | h | rfl | h
  · exact joint_of_isDigit (isDigit_of_mem_pad h)
  · decide
  · exact joint_of_isDigit (isDigit_of_mem_pad h)
  · decide
  · exact joint_of_isDigit (isDigit_of_mem_pad h)

theorem not_alreadySynced_nil : ¬alreadySynced [] := by decide

theorem alreadySynced_cons (hc : Joint c) :
    alreadySynced (c :: ys) ↔ alreadySynced ys := by
  rw [← List.nil_append (c :: ys), alreadySynced_append_cons hc]
  exact or_iff_right not_alreadySynced_nil

theorem not_alreadySynced_field (error : ValidationError) : ¬alreadySynced error.field := by
  have split (index : ℕ) (name : String) (h : ¬alreadySynced name.toList) :
      ¬alreadySynced (ValidationError.splitField index name) := by
    unfold ValidationError.splitField
    rw [alreadySynced_append_append (natDigits_ne_nil index) joint_natDigits,
      alreadySynced_cons (joint_of_not_isAlpha (by decide) (by decide)),
      alreadySynced_cons (joint_of_not_isAlpha (by decide) (by decide)), not_or]
    exact ⟨by decide, h⟩
  cases error with
  | accountRequired index | accountFormat index => exact split index _ (by decide)
  | valueRequired index => exact split index _ (by decide)
  | denominatorZero index => exact split index _ (by decide)
  | quantityDenominatorZero index => exact split index _ (by decide)
  | reconcileState index => exact split index _ (by decide)
  | unbalanced num denom =>
    change ¬alreadySynced "splits".toList
    decide
  | _ => decide

theorem not_alreadySynced_message (error : ValidationError) :
    ¬alreadySynced (' ' :: error.message) := by
  have split (index : ℕ) (text : String) (h : ¬alreadySynced (' ' :: text.toList)) :
      ¬alreadySynced (' ' :: ValidationError.splitMessage index text) := by
    unfold ValidationError.splitMessage
    rw [← List.cons_append, alreadySynced_append_append (natDigits_ne_nil _) joint_natDigits,
      alreadySynced_cons (c := ':') (joint_of_not_isAlpha (by decide) (by decide)), not_or]
    exact ⟨by decide, h⟩
  cases error with
  | accountRequired index | accountFormat index => exact split index _ (by decide)
  | valueRequired index => exact split index _ (by decide)
  | denominatorZero index => exact split index _ (by decide)
  | quantityDenominatorZero index => exact split index _ (by decide)
  | reconcileState index => exact split index _ (by decide)
  | unbalanced num denom =>
    change ¬alreadySynced ((' ' :: "Splits must sum to zero exactly (current sum".toList) ++
      ':' :: ([' '] ++ (intDigits num ++ (['/'] ++ (natDigits denom ++ [')'])))))
    rw [alreadySynced_append_cons (joint_of_not_isAlpha (by decide) (by decide)),
      alreadySynced_append_append (intDigits_ne_nil num) joint_intDigits,
      alreadySynced_append_append (natDigits_ne_nil denom) joint_natDigits]
    decide
  | _ => decide

theorem alreadySynced_append_right (xs : List Char) (h : alreadySynced ys) :
    alreadySynced (xs ++ ys) := by
  obtain ⟨text, htext, hys⟩ := h
  refine ⟨text, htext, ?_⟩
  rw [List.map_append]
  exact List.infix_append_of_infix_right hys

theorem not_alreadySynced_intercalate (pad : List Char) {texts : List (List Char)}
    (hc : Joint c) (hpad : ¬alreadySynced pad) (h : ∀ text ∈ texts, ¬alreadySynced (pad ++ text)) :
    ¬alreadySynced (pad ++ (c :: pad).intercalate texts) := by
  induction texts with
  | nil => simpa using hpad
  | cons text texts ih =>
    cases texts with
    | nil =>
      rw [List.intercalate_singleton]
      exact h text (by simp)
    | cons next texts =>
      rw [List.intercalate_cons_cons, List.append_assoc, List.cons_append, ← List.append_assoc,
        alreadySynced_append_cons hc, not_or]
      exact ⟨h text (by simp), ih fun t ht => h t (List.mem_cons_of_mem _ ht)⟩

theorem not_alreadySynced_errorEntry (error : ValidationError) :
    ¬alreadySynced (errorEntry error) := by
  unfold errorEntry
  rw [alreadySynced_append_cons (joint_of_not_isAlpha (by decide) (by decide)),
    alreadySynced_append_cons (joint_of_not_isAlpha (by decide) (by decide)),
    alreadySynced_append_cons (joint_of_not_isAlpha (by decide) (by decide)),
    alreadySynced_append_cons (joint_of_not_isAlpha (by decide) (by decide))]
  simp only [not_or]
  exact ⟨by decide, not_alreadySynced_field error, by decide,
    fun h => not_alreadySynced_message error (alreadySynced_append_right [' '] h), by decide⟩

theorem not_alreadySynced_error (refusal : Refusal) : ¬alreadySynced refusal.error := by
  cases refusal with
  | tokenRole role | userRole role => cases role <;> decide
  | invalid errors =>
    have hmessages : ¬alreadySynced ([' '] ++ summarizeValidationErrors errors) := by
      refine not_alreadySynced_intercalate [' '] (by decide) (by decide) fun text htext => ?_
      obtain ⟨error, _, rfl⟩ := List.mem_map.1 htext
      exact not_alreadySynced_message error
    exact fun h => hmessages (alreadySynced_append_right [' '] h)
  | periodLocked lockDate =>
    unfold Refusal.error
    rw [alreadySynced_append_append (by simp [isoDay]) joint_isoDay]
    decide
  | _ => decide

theorem not_alreadySynced_rest (refusal : Refusal) : ¬alreadySynced refusal.rest := by
  cases refusal with
  | invalid errors =>
    have hentries : ¬alreadySynced ([','].intercalate (errors.map errorEntry)) := by
      refine not_alreadySynced_intercalate [] (joint_of_not_isAlpha (by decide) (by decide))
        not_alreadySynced_nil ?_
      intro text htext
      obtain ⟨error, _, rfl⟩ := List.mem_map.1 htext
      exact not_alreadySynced_errorEntry error
    unfold Refusal.rest
    rw [alreadySynced_append_cons (joint_of_not_isAlpha (by decide) (by decide)),
      alreadySynced_append_cons (joint_of_not_isAlpha (by decide) (by decide))]
    simp only [not_or]
    exact ⟨by decide, hentries, by decide⟩
  | periodLocked lockDate =>
    change ¬alreadySynced ",\"code\":\"PERIOD_LOCKED\"\x7d".toList
    decide
  | _ =>
    change ¬alreadySynced "\x7d".toList
    decide

theorem not_alreadySynced_response (refusal : Refusal) :
    ¬alreadySynced refusal.response.body := by
  unfold Refusal.response errorBody
  rw [alreadySynced_append_cons (joint_of_not_isAlpha (by decide) (by decide)),
    alreadySynced_append_cons (joint_of_not_isAlpha (by decide) (by decide))]
  simp only [not_or]
  exact ⟨by decide, not_alreadySynced_error refusal, not_alreadySynced_rest refusal⟩

theorem not_accepted_response (refusal : Refusal) : refusal.response.accepted = false := by
  cases refusal <;> rfl

theorem classify_response (refusal : Refusal) (readable : Bool) :
    ∃ error, classify refusal.response readable = .failed error := by
  have hbody : ¬alreadySynced (if readable then refusal.response.body else []) := by
    split
    · exact not_alreadySynced_response refusal
    · exact not_alreadySynced_nil
  unfold classify
  rw [if_neg hbody]
  exact ⟨_, rfl⟩

theorem POST_cases (fate : Fate) (request : CreateTransactionRequest) (server : Server) :
    ((POST fate request server).1.accepted = true ∧ request.guid ∉ server.transactions ∧
      request.guid ∈ (POST fate request server).2.transactions) ∨
    ∃ refusal : Refusal, (POST fate request server).1 = refusal.response := by
  cases fate with
  | refused refusal => exact .inr ⟨refusal, rfl⟩
  | created =>
    unfold POST
    by_cases h : request.guid ∈ server.transactions
    · simp only [if_pos h]
      exact .inr ⟨.failed, rfl⟩
    · simp only [if_neg h]
      exact .inl ⟨rfl, h, by simp⟩
  | createdThenFailed =>
    unfold POST
    by_cases h : request.guid ∈ server.transactions
    · simp only [if_pos h]
      exact .inr ⟨.failed, rfl⟩
    · simp only [if_neg h]
      exact .inr ⟨.failed, rfl⟩

theorem POST_server (fate : Fate) (request : CreateTransactionRequest) (server : Server) :
    (POST fate request server).2 = server ∨ request.guid ∉ server.transactions ∧
      (POST fate request server).2 =
        { server with transactions := server.transactions ++ [request.guid] } := by
  cases fate with
  | refused refusal => exact .inl rfl
  | created | createdThenFailed =>
    by_cases h : request.guid ∈ server.transactions
    · exact .inl (by simp [POST, h])
    · exact .inr (by simp [POST, h])

theorem PUT_cases (fate : TagFate) (guid : List Char) (tags : List String) (server : Server) :
    ((PUT fate guid tags server).2 = server ∧
      classifyTags (PUT fate guid tags server).1 ≠ .synced) ∨
    (PUT fate guid tags server).2 = { server with tagged := server.tagged ++ [(guid, tags)] } := by
  by_cases h : guid ∈ server.transactions
  · cases fate with
    | accepted => exact .inr (by simp [PUT, h])
    | _ => exact .inl (by simp [PUT, h, classifyTags])
  · cases fate <;> exact .inl (by simp [PUT, h, classifyTags])

end QuickAdd
