import Mathlib
import GnucashWeb.Lib.Runs
import GnucashWeb.Lib.Sessions
import GnucashWeb.Lib.Text

/-!
# Codes that are used once

The store of second factors, and how often a code is accepted.
-/

/-!
## Two-factor enrollment of a user

The operations on the enrollment row of one user, query by query.  Encryption, the check of a live
code and the hash are given; the clock and the codes that are drawn come with a step.  Beside the row
stands the history of its recovery codes.  The status queries are left out, for they decide nothing.
-/

namespace TwoFactor

open Sessions

/-! ## Recovery codes -/

def RECOVERY_CODE_COUNT : ℕ := 10

def normalizeRecoveryCode (code : List Char) : List Char :=
  (code.map Char.toLower).filter fun c => c.isDigit || ('a' ≤ c && c ≤ 'z')

/-- `/^[a-z0-9]{4}-?[a-z0-9]{4}$/i` after trimming. -/
def looksLikeRecoveryCode (input : List Char) : Bool :=
  let s := Text.trim input
  let rest := if (s.drop 4).head? = some '-' then s.drop 5 else s.drop 4
  (s.take 4).length = 4 && rest.length = 4 && (s.take 4 ++ rest).all Char.isAlphanum

/-- `/^\d{6}$/` without white space. -/
def isLiveCode (trimmed : List Char) : Bool :=
  let digits := trimmed.filter fun c => !Text.isSpace c
  digits.length = 6 && digits.all Char.isDigit

def lastIndex? {H : Type} [DecidableEq H] (stored : List H) (target : H) : Option ℕ :=
  (stored.zipIdx.filter fun e => e.1 = target).getLast?.map Prod.snd

/-- The hashes without the one that a code matches; none if it matches none. -/
def consumeRecoveryCode {H : Type} [DecidableEq H] (stored : List H) (target : H) :
    Option (List H) :=
  (lastIndex? stored target).map fun i => stored.eraseIdx i

/-! ## State -/

/-- A row of `gnucash_web_totp`. -/
structure TotpRow (H : Type) where
  secretEncrypted : List Char
  enabledAt : Option ℤ
  recoveryCodeHashes : List H
deriving DecidableEq

inductive Event (H : Type)
  | accepted (code : H)
  /-- What was left of a set was replaced or removed. -/
  | retired (codes : List H)
deriving DecidableEq

/-- The row, if the user has one, and the history, the last event first. -/
structure Db (H : Type) where
  row : Option (TotpRow H)
  history : List (Event H)

def Db.codes {H : Type} (db : Db H) : List H := (db.row.map TotpRow.recoveryCodeHashes).getD []

inductive Request
  | beginEnrollment (secretEncrypted : List Char)
  | confirmEnrollment (code : List Char)
  | verifyLogin (code : List Char)
  | disableTotp (code : List Char)
  | regenerateRecoveryCodes (code : List Char)
deriving DecidableEq

/-- What a call of `verifyLogin` is made for. -/
inductive Purpose
  | login
  | disable
  | regenerate
deriving DecidableEq

inductive Phase (H : Type)
  | idle
  /-- The first query of a request, `getRow`. -/
  | reading (req : Request)
  /-- `getRow` in `verifyLogin`. -/
  | verifying (purpose : Purpose) (code : List Char)
  /-- Write back what `verifyLogin` read without the code that it matched. -/
  | consuming (purpose : Purpose) (seen remaining : List H) (target : H)
  | upserting (secretEncrypted : List Char)
  | enabling
  | deleting
  | replacing
deriving DecidableEq

abbrev State (H : Type) := Sys (Db H) Empty (Phase H)

def start (H : Type) : State H := ⟨⟨none, []⟩, Empty.elim, fun _ => .idle⟩

/-! ## Queries -/

section Queries

variable {H Secret : Type} [DecidableEq H] (decrypt : List Char → Option Secret)
  (verifyTotp : Secret → List Char → ℤ → Bool) (hash : List Char → H)

/-- The first query of a request, and the one that comes after it. -/
def afterRead (now : ℤ) (row : Option (TotpRow H)) : Request → Phase H
  | .beginEnrollment secretEncrypted =>
    if (row.bind TotpRow.enabledAt).isSome then .idle else .upserting secretEncrypted
  | .confirmEnrollment code =>
    match row with
    | none => .idle
    | some r =>
      if r.enabledAt.isSome then .idle
      else if (decrypt r.secretEncrypted).any fun secret => verifyTotp secret code now then
        .enabling
      else .idle
  | .verifyLogin code => .verifying .login code
  | .disableTotp code =>
    match row with
    | none => .idle
    | some r => if r.enabledAt.isNone then .deleting else .verifying .disable code
  | .regenerateRecoveryCodes code =>
    if (row.bind TotpRow.enabledAt).isSome then .verifying .regenerate code else .idle

/-- What a request does once its code was accepted or refused. -/
def afterVerify : Purpose → Bool → Phase H
  | .disable, true => .deleting
  | .regenerate, true => .replacing
  | _, _ => .idle

/-- What `verifyLogin` does with the row that it read. -/
def verify (now : ℤ) (row : Option (TotpRow H)) (purpose : Purpose) (code : List Char) : Phase H :=
  match row.filter fun r => r.enabledAt.isSome with
  | none => afterVerify purpose false
  | some r =>
    let trimmed := Text.trim code
    if isLiveCode trimmed then
      afterVerify purpose
        ((decrypt r.secretEncrypted).any fun secret => verifyTotp secret trimmed now)
    else if looksLikeRecoveryCode trimmed then
      let target := hash (normalizeRecoveryCode trimmed)
      match consumeRecoveryCode r.recoveryCodeHashes target with
      | none => afterVerify purpose false
      | some remaining => .consuming purpose r.recoveryCodeHashes remaining target
    else afterVerify purpose false

/-- An `UPDATE`, which changes nothing without a row. -/
def Db.update (db : Db H) (f : TotpRow H → TotpRow H) (e : Event H) : Db H :=
  ⟨db.row.map f, e :: db.history⟩

def withCodes (codes : List H) (r : TotpRow H) : TotpRow H := { r with recoveryCodeHashes := codes }

inductive Step
  | call (k : ℕ) (req : Request)
  /-- The next query of a request, at a time, with the codes it draws. -/
  | advance (k : ℕ) (now : ℤ) (drawn : List (List Char))

def hashes (drawn : List (List Char)) : List H := drawn.map fun c => hash (normalizeRecoveryCode c)

/-- A request that draws codes draws the full number. -/
def advanceNext (k : ℕ) (now : ℤ) (drawn : List (List Char)) (s : State H) : Option (State H) :=
  match s.phase k with
  | .idle => none
  | .reading (.verifyLogin code) =>
    some (s.goto k (verify decrypt verifyTotp hash now s.db.row .login code))
  | .reading req => some (s.goto k (afterRead decrypt verifyTotp now s.db.row req))
  | .verifying purpose code =>
    some (s.goto k (verify decrypt verifyTotp hash now s.db.row purpose code))
  | .consuming purpose _ remaining target =>
    some (s.close k (s.db.update (withCodes remaining) (.accepted target))
      (afterVerify purpose true))
  | .upserting secretEncrypted =>
    some (s.close k ⟨some ⟨secretEncrypted, none, []⟩, .retired s.db.codes :: s.db.history⟩ .idle)
  | .enabling =>
    if drawn.length = RECOVERY_CODE_COUNT then
      some (s.close k (s.db.update
        (fun r => withCodes (hashes hash drawn) { r with enabledAt := some now })
        (.retired s.db.codes)) .idle)
    else none
  | .deleting => some (s.close k ⟨none, .retired s.db.codes :: s.db.history⟩ .idle)
  | .replacing =>
    if drawn.length = RECOVERY_CODE_COUNT then
      some (s.close k (s.db.update (withCodes (hashes hash drawn)) (.retired s.db.codes)) .idle)
    else none

def next : Step → State H → Option (State H)
  | .call k req, s =>
    match s.phase k with
    | .idle => some (s.goto k (.reading req))
    | _ => none
  | .advance k now drawn, s => advanceNext decrypt verifyTotp hash k now drawn s

end Queries

end TwoFactor

/-!
## Recovery codes are used once

Along every run in which a login writes back the codes that are still stored as it read them, and
codes that are drawn are new, no code is accepted twice or after its set was replaced or removed, and
no spent code is stored again (`singleUse_of_run`).  Two logins that read the same codes both accept
one (`twoLogins_not_singleUse`).
-/

namespace TwoFactor

open Runs Sessions

variable {H Secret : Type} [DecidableEq H]

/-! ## Histories -/

def Event.Spends : Event H → H → Prop
  | .accepted code, h => h = code
  | .retired codes, h => h ∈ codes

instance (e : Event H) (h : H) : Decidable (e.Spends h) := by
  cases e <;> unfold Event.Spends <;> infer_instance

def Spent (history : List (Event H)) (h : H) : Prop := ∃ e ∈ history, e.Spends h

instance (history : List (Event H)) (h : H) : Decidable (Spent history h) :=
  inferInstanceAs (Decidable (∃ e ∈ history, e.Spends h))

/-- No code is accepted that was spent before. -/
def Once : List (Event H) → Prop
  | [] => True
  | .accepted code :: past => ¬Spent past code ∧ Once past
  | .retired _ :: past => Once past

/-- No code was accepted that was spent before, and no spent code is stored. -/
def SingleUse (db : Db H) : Prop := Once db.history ∧ ∀ h ∈ db.codes, ¬Spent db.history h

omit [DecidableEq H] in
theorem spent_cons {e : Event H} {history : List (Event H)} {h : H} :
    Spent (e :: history) h ↔ e.Spends h ∨ Spent history h := by
  simp [Spent]

variable {stored remaining : List H} {target : H} {s : State H} {db : Db H}

theorem getElem?_of_lastIndex? {i : ℕ}
    (h : lastIndex? stored target = some i) : stored[i]? = some target := by
  obtain ⟨⟨x, j⟩, hlast, rfl⟩ := Option.map_eq_some_iff.1 h
  obtain ⟨hmem, hx⟩ := List.mem_filter.1 (List.mem_of_getLast? hlast)
  rw [List.mem_zipIdx_iff_getElem?] at hmem
  rw [hmem]
  simpa using hx

theorem mem_of_consume
    (h : consumeRecoveryCode stored target = some remaining) : target ∈ stored := by
  obtain ⟨i, hi, -⟩ := Option.map_eq_some_iff.1 h
  exact List.mem_of_getElem? (getElem?_of_lastIndex? hi)

theorem mem_remaining (hnodup : stored.Nodup)
    (h : consumeRecoveryCode stored target = some remaining) {c : H} (hc : c ∈ remaining) :
    c ∈ stored ∧ c ≠ target := by
  obtain ⟨i, hi, rfl⟩ := Option.map_eq_some_iff.1 h
  refine ⟨List.mem_of_mem_eraseIdx hc, ?_⟩
  rintro rfl
  obtain ⟨j, hj, hjc⟩ := List.mem_eraseIdx_iff_getElem?.1 hc
  have hlt : j < stored.length := by
    by_contra hge
    rw [List.getElem?_eq_none (not_lt.1 hge)] at hjc
    cases hjc
  exact hj ((List.getElem?_inj hlt hnodup).1 (hjc.trans (getElem?_of_lastIndex? hi).symm))

theorem nodup_remaining (hnodup : stored.Nodup)
    (h : consumeRecoveryCode stored target = some remaining) : remaining.Nodup := by
  obtain ⟨i, -, rfl⟩ := Option.map_eq_some_iff.1 h
  exact hnodup.sublist (List.eraseIdx_sublist ..)

/-! ## Runs -/

variable (decrypt : List Char → Option Secret) (verifyTotp : Secret → List Char → ℤ → Bool)
  (hash : List Char → H)

/-- A login writes back over the codes that it read, and codes that are drawn are new. -/
def Unraced : Step → State H → Prop
  | .call _ _, _ => True
  | .advance k _ drawn, s =>
    match s.phase k with
    | .consuming _ seen _ _ => s.db.row.map TotpRow.recoveryCodeHashes = some seen
    | .enabling | .replacing =>
      (hashes hash drawn).Nodup ∧
        ∀ h ∈ hashes hash drawn, h ∉ s.db.codes ∧ ¬Spent s.db.history h
    | _ => True

instance (l : Step) (s : State H) : Decidable (Unraced hash l s) := by
  unfold Unraced
  split
  · infer_instance
  · split <;> infer_instance

def Stored (db : Db H) : Prop := db.codes.Nodup ∧ SingleUse db

/-- A login that writes matched a code of those that it read. -/
def PhaseOk : Phase H → Prop
  | .consuming _ seen remaining target => consumeRecoveryCode seen target = some remaining
  | _ => True

structure Inv (s : State H) : Prop where
  stored : Stored s.db
  phases : ∀ k, PhaseOk (s.phase k)

theorem Inv.goto (hs : Inv s) {k : ℕ} {p : Phase H} (hp : PhaseOk p) :
    Inv (s.goto k p) := by
  refine ⟨hs.stored, fun j => ?_⟩
  by_cases hjk : j = k
  · subst hjk
    rwa [Sys.goto_phase_self]
  · rw [Sys.goto_phase_of_ne hjk]
    exact hs.phases j

theorem Inv.close (hs : Inv s) {k : ℕ} {p : Phase H} (hdb : Stored db)
    (hp : PhaseOk p) : Inv (s.close k db p) := by
  refine ⟨hdb, fun j => ?_⟩
  by_cases hjk : j = k
  · subst hjk
    rwa [Sys.close_phase_self]
  · rw [Sys.close_phase_of_ne hjk]
    exact hs.phases j

theorem phaseOk_afterVerify (purpose : Purpose) (ok : Bool) :
    PhaseOk (afterVerify purpose ok : Phase H) := by
  cases purpose <;> cases ok <;> trivial

theorem phaseOk_verify (now : ℤ) (row : Option (TotpRow H)) (purpose : Purpose)
    (code : List Char) : PhaseOk (verify decrypt verifyTotp hash now row purpose code) := by
  unfold verify
  split
  · exact phaseOk_afterVerify ..
  · simp only
    split
    · exact phaseOk_afterVerify ..
    · split
      · split
        · exact phaseOk_afterVerify ..
        · next hconsume => exact hconsume
      · exact phaseOk_afterVerify ..

theorem phaseOk_afterRead (now : ℤ) (row : Option (TotpRow H)) (req : Request) :
    PhaseOk (afterRead decrypt verifyTotp now row req) := by
  cases req with
  | beginEnrollment =>
    simp only [afterRead]
    split <;> trivial
  | confirmEnrollment =>
    simp only [afterRead]
    split
    · trivial
    · split
      · trivial
      · split <;> trivial
  | verifyLogin => trivial
  | disableTotp =>
    simp only [afterRead]
    split
    · trivial
    · split <;> trivial
  | regenerateRecoveryCodes =>
    simp only [afterRead]
    split <;> trivial

omit [DecidableEq H] in
theorem stored_retire (hdb : Stored db) {row : Option (TotpRow H)}
    (hnodup : ((row.map TotpRow.recoveryCodeHashes).getD []).Nodup)
    (hnew : ∀ h ∈ (row.map TotpRow.recoveryCodeHashes).getD [],
      h ∉ db.codes ∧ ¬Spent db.history h) :
    Stored ⟨row, .retired db.codes :: db.history⟩ := by
  refine ⟨hnodup, hdb.2.1, fun h hh hspent => ?_⟩
  rcases spent_cons.1 hspent with hcodes | hspent
  · exact (hnew h hh).1 hcodes
  · exact (hnew h hh).2 hspent

theorem stored_consume (hdb : Stored db) {seen : List H}
    (hseen : db.row.map TotpRow.recoveryCodeHashes = some seen)
    (hconsume : consumeRecoveryCode seen target = some remaining) :
    Stored (db.update (withCodes remaining) (.accepted target)) := by
  obtain ⟨r, hrow, rfl⟩ := Option.map_eq_some_iff.1 hseen
  have hcodes : db.codes = r.recoveryCodeHashes := by simp [Db.codes, hrow]
  have hcodes' : (db.update (withCodes remaining) (.accepted target)).codes = remaining := by
    simp [Db.update, Db.codes, hrow, withCodes]
  have hnodup : r.recoveryCodeHashes.Nodup := hcodes ▸ hdb.1
  have hunspent (h : H) (hh : h ∈ r.recoveryCodeHashes) : ¬Spent db.history h :=
    hdb.2.2 h (hcodes ▸ hh)
  refine ⟨?_, ⟨hunspent _ (mem_of_consume hconsume), hdb.2.1⟩, fun h hh hspent => ?_⟩
  · rw [hcodes']
    exact nodup_remaining hnodup hconsume
  rw [hcodes'] at hh
  obtain ⟨hold, hne⟩ := mem_remaining hnodup hconsume hh
  rcases spent_cons.1 hspent with heq | hspent
  · exact hne heq
  · exact hunspent h hold hspent

omit [DecidableEq H] in
theorem stored_replace (hdb : Stored db) {f : TotpRow H → TotpRow H}
    {codes : List H} (hf : ∀ r, (f r).recoveryCodeHashes = codes) (hnodup : codes.Nodup)
    (hnew : ∀ h ∈ codes, h ∉ db.codes ∧ ¬Spent db.history h) :
    Stored (db.update f (.retired db.codes)) := by
  have hmap : ∀ h ∈ ((db.row.map f).map TotpRow.recoveryCodeHashes).getD [], h ∈ codes := by
    cases db.row with
    | none => simp
    | some r => simp [hf]
  refine stored_retire hdb ?_ fun h hh => hnew h (hmap h hh)
  cases db.row with
  | none => exact List.nodup_nil
  | some r => simpa [hf] using hnodup

theorem inv_next {l : Step} {s' : State H} (hl : Unraced hash l s)
    (hnext : next decrypt verifyTotp hash l s = some s') (hs : Inv s) : Inv s' := by
  cases l with
  | call k req =>
    simp only [next] at hnext
    split at hnext
    · cases hnext
      exact hs.goto trivial
    · cases hnext
  | advance k now drawn =>
    have hk := hs.phases k
    simp only [next, advanceNext] at hnext
    simp only [Unraced] at hl
    cases hphase : s.phase k with
    | idle => simp [hphase] at hnext
    | reading req =>
      rw [hphase] at hnext
      cases req with
      | verifyLogin code =>
        cases hnext
        exact hs.goto (phaseOk_verify ..)
      | beginEnrollment secretEncrypted =>
        cases hnext
        exact hs.goto (phaseOk_afterRead ..)
      | confirmEnrollment code =>
        cases hnext
        exact hs.goto (phaseOk_afterRead ..)
      | disableTotp code =>
        cases hnext
        exact hs.goto (phaseOk_afterRead ..)
      | regenerateRecoveryCodes code =>
        cases hnext
        exact hs.goto (phaseOk_afterRead ..)
    | verifying purpose code =>
      rw [hphase] at hnext
      cases hnext
      exact hs.goto (phaseOk_verify ..)
    | consuming purpose seen remaining target =>
      rw [hphase] at hnext hl hk
      cases hnext
      exact hs.close (stored_consume hs.stored hl hk) (phaseOk_afterVerify ..)
    | upserting secretEncrypted =>
      rw [hphase] at hnext
      cases hnext
      exact hs.close (stored_retire hs.stored (by simp) (by simp)) trivial
    | enabling =>
      rw [hphase] at hnext hl
      simp only at hnext hl
      split at hnext
      · cases hnext
        exact hs.close (stored_replace hs.stored (fun r => rfl) hl.1 hl.2) trivial
      · cases hnext
    | deleting =>
      rw [hphase] at hnext
      cases hnext
      exact hs.close (stored_retire hs.stored (by simp) (by simp)) trivial
    | replacing =>
      rw [hphase] at hnext hl
      simp only at hnext hl
      split at hnext
      · cases hnext
        exact hs.close (stored_replace hs.stored (fun r => rfl) hl.1 hl.2) trivial
      · cases hnext

theorem inv_start : Inv (start H) :=
  ⟨⟨List.nodup_nil, trivial, fun _ h => absurd h List.not_mem_nil⟩, fun _ => trivial⟩

/-- Recovery codes are used once along a run without races. -/
theorem singleUse_of_run {steps : List Step} {s : State H}
    (hrun : run (next decrypt verifyTotp hash) steps (start H) = some s)
    (h : Along (next decrypt verifyTotp hash) (Unraced hash) steps (start H)) :
    SingleUse s.db := by
  have hs : Inv s := invariant_along
    (fun l s s' hl hnext => inv_next decrypt verifyTotp hash hl hnext) hrun h inv_start
  exact hs.stored.2

/-! ## Two logins -/

def tenCodes : List (List Char) :=
  (List.range RECOVERY_CODE_COUNT).map fun i => "abcd-efg".toList ++ Text.natDigits i

/-- Enrollment, and two logins with the first code that read before either writes. -/
def twoLogins : List Step :=
  [.call 0 (.beginEnrollment []), .advance 0 0 [], .advance 0 0 [],
    .call 0 (.confirmEnrollment []), .advance 0 0 [], .advance 0 0 tenCodes,
    .call 1 (.verifyLogin "abcd-efg0".toList), .call 2 (.verifyLogin "abcd-efg0".toList),
    .advance 1 0 [], .advance 2 0 [], .advance 1 0 [], .advance 2 0 []]

def oneByOne : List Step :=
  [.call 0 (.beginEnrollment []), .advance 0 0 [], .advance 0 0 [],
    .call 0 (.confirmEnrollment []), .advance 0 0 [], .advance 0 0 tenCodes,
    .call 1 (.verifyLogin "abcd-efg0".toList), .call 2 (.verifyLogin "abcd-efg0".toList),
    .advance 1 0 [], .advance 1 0 [], .advance 2 0 []]

/-- The queries where every live code is right and the codes are their own hashes. -/
def trusting : Step → State (List Char) → Option (State (List Char)) :=
  next (fun _ => some ()) (fun _ _ _ => true) id

theorem singleUse_oneByOne : ∃ s, run trusting oneByOne (start (List Char)) = some s ∧
    SingleUse s.db := by
  have hsome : (run trusting oneByOne (start (List Char))).isSome := by decide +kernel
  obtain ⟨s, hs⟩ := Option.isSome_iff_exists.1 hsome
  exact ⟨s, hs, singleUse_of_run _ _ _ hs (by decide +kernel)⟩

theorem twoLogins_not_singleUse :
    ¬ ∀ (steps : List Step) (s : State (List Char)),
      run trusting steps (start (List Char)) = some s → SingleUse s.db := by
  intro h
  have hhistory : (run trusting twoLogins (start (List Char))).map (fun s => s.db.history) =
      some [.accepted "abcdefg0".toList, .accepted "abcdefg0".toList, .retired [], .retired []] := by
    decide +kernel
  obtain ⟨s, hs, hevents⟩ := Option.map_eq_some_iff.1 hhistory
  have honce := (h twoLogins s hs).1
  rw [hevents] at honce
  exact honce.1 ⟨_, List.mem_cons_self, rfl⟩

end TwoFactor
