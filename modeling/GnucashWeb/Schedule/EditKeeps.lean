import Mathlib.Data.List.Count
import GnucashWeb.Schedule.Edit
import GnucashWeb.Schedule.Numerators

/-!
# Editing a schedule with its own data

Whether `updateScheduledTransaction` with what `scheduledToInput` makes of a schedule keeps its
template splits and its occurrences, and whether `deleteScheduledTransaction` leaves nothing of its
template: `editKeeps_and_deletesAll_iff`.
-/

open Ledger (Amount Account Transaction Split WholeCents wholeCents_iff)
open Recurrence

namespace Schedule

/-! ## What should hold -/

/-- The accounts and amounts that the template of a schedule resolves to. -/
def resolvedOf (s : EditDb) (guid : String) : Option (List (String × ℚ)) :=
  (s.schedule? guid).map fun sx =>
    (resolveTemplateSplits s.toDb sx.templateActGuid).map fun r => (r.accountGuid, r.amount)

/-- The upcoming occurrences of a schedule under the given patterns. -/
def upcomingUnder (patterns : List RecurrencePattern) (sx : SchedXAction) (count : ℕ) (today : ℤ) :
    List ℤ :=
  computeNextOccurrencesForPatterns patterns (sx.lastOccur.map isoDay) sx.endDate
    (listedRemaining sx.remOccur) count today

def upcomingOf (s : EditDb) (guid : String) (count : ℕ) (today : ℤ) : Option (List ℤ) :=
  (s.schedule? guid).map fun sx => upcomingUnder (patternsOf s.recurrences sx.guid) sx count today

/-- An update with the schedule's own data changes neither. -/
def EditKeeps (host : Host) (s : EditDb) (guid : String) (scope : Option (List String)) : Prop :=
  ∀ before input, getScheduledTransaction s guid = some before →
    scheduledToInput before = .ok input →
      resolvedOf (afterUpdate host s guid input scope) guid = resolvedOf s guid ∧
        ∀ count today, upcomingOf (afterUpdate host s guid input scope) guid count today =
          upcomingOf s guid count today

def templateAccounts (db : Db) (sx : SchedXAction) : List String :=
  sx.templateActGuid :: childGuids db sx

/-- What belongs to the template of a schedule: its accounts, the splits on them, their transactions
and the frames in their slots. -/
inductive Belongs (db : Db) (sx : SchedXAction) : String → Prop
  | account {guid : String} (h : guid ∈ templateAccounts db sx) : Belongs db sx guid
  | split {s : Split} (hs : s ∈ db.splits) (h : s.accountGuid ∈ templateAccounts db sx) :
      Belongs db sx s.guid
  | transaction {s : Split} (hs : s ∈ db.splits) (h : s.accountGuid ∈ templateAccounts db sx) :
      Belongs db sx s.txGuid
  | frame {r : Slot} {guid : String} (hr : r ∈ db.slots) (hframe : r.slotType = 9)
      (hguid : r.guidVal = some guid) (h : Belongs db sx r.objGuid) : Belongs db sx guid

/-- Nothing of a schedule's template is left. -/
structure IsGone (db : Db) (sx : SchedXAction) (db' : Db) : Prop where
  accounts : ∀ a ∈ db'.accounts, a.guid ∉ templateAccounts db sx
  splits : ∀ s ∈ db'.splits, s.accountGuid ∉ templateAccounts db sx
  transactions : ∀ s ∈ db.splits, s.accountGuid ∈ templateAccounts db sx →
    ∀ t ∈ db'.transactions, t.guid ≠ s.txGuid
  slots : ∀ r ∈ db'.slots, ¬Belongs db sx r.objGuid

def DeletesAll (s : EditDb) (sx : SchedXAction) : Prop :=
  ∃ s' snapshot, deleteScheduledTransaction s sx.guid = .ok (s', snapshot) ∧
    s'.schedule? sx.guid = none ∧ IsGone s.toDb sx s'.toDb

/-- The update with an input is not refused. -/
structure Accepts (s : EditDb) (sx : SchedXAction) (scope : Option (List String))
    (input : CreateScheduledTxInput) : Prop where
  valid : validateScheduledTransactionInput s scope input = none
  currency : (templateCurrency s.toDb sx).isSome
  template : hasTemplateAccount s.toDb sx = true

/-- The amounts are whole cents that sum to zero and the first recurrence row gives all
occurrences. -/
structure IsSimple (s : EditDb) (sx : SchedXAction) : Prop where
  whole : ∀ r ∈ resolveTemplateSplits s.toDb sx.templateActGuid, WholeCents r.amount
  balanced : ((resolveTemplateSplits s.toDb sx.templateActGuid).map ResolvedSplit.amount).sum = 0
  firstRow : ∀ count today,
    upcomingUnder ((patternsOf s.recurrences sx.guid).take 1) sx count today =
      upcomingUnder (patternsOf s.recurrences sx.guid) sx count today

/-- The schedule has a recurrence and a template account, no split is on the template account itself,
and no slot of the template is on a split or in a frame. -/
structure IsDeletable (s : EditDb) (sx : SchedXAction) : Prop where
  recurrence : patternsOf s.recurrences sx.guid ≠ []
  template : hasTemplateAccount s.toDb sx = true
  appLayout : ∀ p ∈ s.splits, p.accountGuid ≠ sx.templateActGuid
  slots : ∀ r ∈ s.slots, Belongs s.toDb sx r.objGuid →
    r.objGuid ∈ templateAccounts s.toDb sx ∨ r.objGuid ∈ transactionGuids s.toDb sx

structure FreshGuids (host : Host) (db : Db) : Prop where
  injective : Function.Injective host.generateGuid
  splits : ∀ n, db.drawn ≤ n → ∀ s ∈ db.splits, s.accountGuid ≠ host.generateGuid n
  slots : ∀ n, db.drawn ≤ n → ∀ r ∈ db.slots, r.objGuid ≠ host.generateGuid n

/-! ## The new template -/

theorem toDecimalNumber_cents (n : ℤ) :
    (⟨n, postingDenom⟩ : Amount).toDecimalNumber = (n : ℚ) / 100 :=
  @Amount.toDecimalNumber_of_powerOfTen 100 2 (by decide) rfl n

theorem resolveTemplateSplits_congr {db db' : Db} (haccounts : db'.accounts = db.accounts)
    (hsplits : db'.splits = db.splits) (hslots : db'.slots = db.slots) (root : String) :
    resolveTemplateSplits db' root = resolveTemplateSplits db root := by
  cases db
  cases db'
  subst haccounts hsplits hslots
  rfl

theorem filterMap_getElem?_range {α : Type} (l : List α) :
    (List.range l.length).filterMap (fun i => l[i]?) = l := by
  induction l with
  | nil => rfl
  | cons a l ih =>
    rw [List.length_cons, List.range_succ_eq_map, List.filterMap_cons, List.filterMap_map]
    simpa [Function.comp_def] using ih

section Filled

variable {host : Host} {db : Db} {root currencyGuid name : String} {splits : List InputSplit}
  {nums : List ℤ}

theorem templateToReal_filled (hfresh : FreshGuids host db)
    (hguids : ∀ split ∈ splits, split.accountGuid ≠ "") {i : ℕ} (hi : i < splits.length) :
    templateToReal (createTemplateContents host db root currencyGuid name splits nums)
      (host.generateGuid (db.drawn + i)) = some splits[i].accountGuid := by
  have hold : (db.slots.filter fun r => r.objGuid = host.generateGuid (db.drawn + i) ∧
      r.slotType = 4 ∧ r.name = "account") = [] := by
    refine List.filter_eq_nil_iff.2 fun r hr => ?_
    have hne := hfresh.slots (db.drawn + i) (Nat.le_add_right _ _) r hr
    simp [hne]
  have hnew : (List.range splits.length).filter (fun j => decide
      (host.generateGuid (db.drawn + j) = host.generateGuid (db.drawn + i))) = [i] := by
    have hsame (j : ℕ) : decide (host.generateGuid (db.drawn + j) =
        host.generateGuid (db.drawn + i)) = decide (j = i) := by
      rw [decide_eq_decide, hfresh.injective.eq_iff]
      omega
    simp only [hsame]
    rw [List.filter_eq, List.count_eq_one_of_mem List.nodup_range (List.mem_range.2 hi)]
    rfl
  unfold templateToReal createTemplateContents
  dsimp only
  rw [List.filter_append, hold, List.nil_append, List.filter_map]
  simp only [Function.comp_def, and_true]
  rw [hnew]
  have hguid := hguids _ (List.getElem_mem hi)
  simp [present, List.getElem?_eq_getElem hi, hguid]

/-- The template resolves to the accounts of the input, with the numerators as amounts. -/
theorem resolve_filled (hfresh : FreshGuids host db)
    (hchildren : ∀ a ∈ db.accounts, a.parentGuid ≠ some root)
    (hguids : ∀ split ∈ splits, split.accountGuid ≠ "") (hne : splits ≠ [])
    (hlength : nums.length = splits.length) :
    (resolveTemplateSplits (createTemplateContents host db root currencyGuid name splits nums)
        root).map (fun r => (r.accountGuid, r.amount)) =
      (splits.map InputSplit.accountGuid).zip (nums.map fun n : ℤ => (n : ℚ) / 100) := by
  set filled := createTemplateContents host db root currencyGuid name splits nums with hfilled
  have hchild : (filled.accounts.filter fun a => a.parentGuid = some root).map Account.guid =
      (List.range splits.length).map fun i => host.generateGuid (db.drawn + i) := by
    have hold : (db.accounts.filter fun a => a.parentGuid = some root) = [] :=
      List.filter_eq_nil_iff.2 fun a ha => by simpa using hchildren a ha
    simp only [hfilled, createTemplateContents, List.filter_append, hold, List.nil_append,
      List.filter_map, Function.comp_def, decide_true, List.filter_true, List.map_map]
  have hsplits : (filled.splits.filter fun s => s.accountGuid ∈
      (List.range splits.length).map fun i => host.generateGuid (db.drawn + i)) =
      (List.range splits.length).map fun i =>
        let amount : Amount := ⟨nums.getD i 0, postingDenom⟩
        ⟨host.generateGuid (db.drawn + splits.length + 1 + i),
          host.generateGuid (db.drawn + splits.length), host.generateGuid (db.drawn + i), "", "", .n,
          none, amount, amount, none⟩ := by
    have hold : (db.splits.filter fun s => decide (s.accountGuid ∈
        (List.range splits.length).map fun i => host.generateGuid (db.drawn + i))) = [] := by
      refine List.filter_eq_nil_iff.2 fun s hs => ?_
      rw [decide_eq_true_eq, List.mem_map]
      rintro ⟨i, -, hi⟩
      exact hfresh.splits (db.drawn + i) (Nat.le_add_right _ _) s hs hi.symm
    simp only [hfilled, createTemplateContents, List.filter_append, hold, List.nil_append]
    refine List.filter_eq_self.2 fun s hs => ?_
    obtain ⟨i, hi, rfl⟩ := List.mem_map.1 hs
    exact decide_eq_true (List.mem_map_of_mem hi)
  have happ : (resolveAppLayout filled root).map (fun r => (r.accountGuid, r.amount)) =
      (splits.map InputSplit.accountGuid).zip (nums.map fun n : ℤ => (n : ℚ) / 100) := by
    unfold resolveAppLayout
    dsimp only
    rw [hchild, hsplits, List.filterMap_map, List.map_filterMap]
    have hzip : ((splits.map InputSplit.accountGuid).zip
        (nums.map fun n : ℤ => (n : ℚ) / 100)).length = splits.length := by
      simp [hlength]
    conv_rhs => rw [← filterMap_getElem?_range ((splits.map InputSplit.accountGuid).zip
      (nums.map fun n : ℤ => (n : ℚ) / 100)), hzip]
    refine List.filterMap_congr fun i hi => ?_
    have hi : i < splits.length := List.mem_range.1 hi
    have hi' : i < nums.length := hlength ▸ hi
    have hreal : templateToReal filled (host.generateGuid (db.drawn + i)) =
        some splits[i].accountGuid := templateToReal_filled hfresh hguids hi
    rw [Function.comp_apply, hreal, List.getElem?_eq_getElem (hzip ▸ hi), List.getElem_zip,
      List.getElem_map, List.getElem_map]
    simp [Split.val, toDecimalNumber_cents, hi']
  have hne' : resolveAppLayout filled root ≠ [] := by
    intro hnil
    have hempty := congrArg List.length happ
    rw [hnil] at hempty
    exact hne (List.length_eq_zero_iff.1 (by simpa [hlength] using hempty.symm))
  rw [resolveTemplateSplits, if_neg hne', happ]

end Filled

/-! ## The checks -/

/-- What an input that passes the checks satisfies. -/
structure IsValid (scope : Option (List String)) (input : CreateScheduledTxInput) : Prop where
  splits : 2 ≤ input.splits.length
  mult : 1 ≤ input.recurrence.mult
  guids : ∀ split ∈ input.splits, split.accountGuid ≠ ""
  balances : ∃ nums, balanceSplitNumerators (input.splits.map InputSplit.amount) postingDenom =
    .ok nums
  inScope : ∀ guids, scope = some guids → ∀ split ∈ input.splits, split.accountGuid ∈ guids

variable {host : Host} {s : EditDb} {sx : SchedXAction} {guid : String}
  {scope : Option (List String)} {input : CreateScheduledTxInput}

theorem isValid_of_validate (h : validateScheduledTransactionInput s scope input = none) :
    IsValid scope input := by
  unfold validateScheduledTransactionInput at h
  split at h
  · cases h
  split at h
  · cases h
  split at h
  · cases h
  rename_i hsplits
  split at h
  · cases h
  split at h
  · cases h
  rename_i hmult
  split at h
  · cases h
  rename_i hguids
  split at h
  · cases h
  rename_i nums hnums
  split at h
  · cases h
  dsimp only at h
  split at h
  · cases h
  rename_i hscope
  refine ⟨not_lt.1 hsplits, not_lt.1 hmult, fun split hsplit hempty => hguids ?_, ⟨nums, hnums⟩,
    fun guids hguids split hsplit => ?_⟩
  · refine List.any_eq_true.2 ⟨split, hsplit, ?_⟩
    simp [hempty, Text.trim]
  · by_contra hnot
    refine hscope ?_
    rw [hguids, Option.any_some, List.any_eq_true]
    exact ⟨split.accountGuid, List.mem_eraseDups.2 (List.mem_map_of_mem hsplit),
      decide_eq_true hnot⟩

theorem length_of_balance {amounts : List ℚ} {denom : ℤ} {nums : List ℤ}
    (h : balanceSplitNumerators amounts denom = .ok nums) : nums.length = amounts.length := by
  rw [balanceSplitNumerators_eq] at h
  split at h
  · cases h
  split at h
  · cases h
  cases h
  simp [nearestUnits]

theorem sum_of_balance {amounts : List ℚ} {denom : ℤ} {nums : List ℤ}
    (h : balanceSplitNumerators amounts denom = .ok nums) : nums.sum = 0 := by
  rw [balanceSplitNumerators_eq] at h
  split at h
  · cases h
  rename_i hne
  split at h
  · cases h
  cases h
  have hlt : absorberOf (nearestUnits amounts denom) < (nearestUnits amounts denom).length :=
    absorberOf_lt fun hnil => hne (List.map_eq_nil_iff.1 hnil)
  rw [sum_modify_sub hlt, sub_self]

theorem sum_cents (nums : List ℤ) :
    (nums.map fun n : ℤ => (n : ℚ) / 100).sum = (nums.sum : ℚ) / 100 := by
  induction nums with
  | nil => simp
  | cons n nums ih =>
    rw [List.map_cons, List.sum_cons, List.sum_cons, ih, Int.cast_add]
    ring

theorem nearestUnits_cents {amounts : List ℚ} (h : ∀ a ∈ amounts, WholeCents a) :
    (nearestUnits amounts postingDenom).map (fun n : ℤ => (n : ℚ) / 100) = amounts := by
  rw [nearestUnits, List.map_map]
  refine (List.map_congr_left fun a ha => ?_).trans (List.map_id amounts)
  have hdenom : ((postingDenom : ℤ) : ℚ) = 100 := by norm_num [postingDenom]
  rw [Function.comp_apply, hdenom, h a ha]
  simp

/-- The numerators are the amounts exactly when these are whole cents that sum to zero. -/
theorem cents_of_balance_iff {amounts : List ℚ} {nums : List ℤ}
    (h : balanceSplitNumerators amounts postingDenom = .ok nums) :
    nums.map (fun n : ℤ => (n : ℚ) / 100) = amounts ↔
      (∀ a ∈ amounts, WholeCents a) ∧ amounts.sum = 0 := by
  constructor
  · rintro rfl
    constructor
    · rintro a ha
      obtain ⟨n, -, rfl⟩ := List.mem_map.1 ha
      exact wholeCents_iff.2 ⟨n, by ring⟩
    · rw [sum_cents, sum_of_balance h]
      simp
  · rintro ⟨hwhole, hsum⟩
    have hcents := nearestUnits_cents hwhole
    have hzero : (nearestUnits amounts postingDenom).sum = 0 := by
      have hcast := sum_cents (nearestUnits amounts postingDenom)
      rw [hcents, hsum] at hcast
      have hcast' : ((nearestUnits amounts postingDenom).sum : ℚ) = 0 := by linarith
      exact_mod_cast hcast'
    rw [balanceSplitNumerators_eq] at h
    split at h
    · cases h
    split at h
    · cases h
    cases h
    rw [hzero]
    have hid (l : List ℤ) (i : ℕ) : l.modify i (· - 0) = l := by
      simp only [sub_zero]
      exact List.modify_id i l
    rw [hid, hcents]

/-! ## The update -/

theorem afterUpdate_of_not_accepts (hsx : s.schedule? guid = some sx)
    (hnot : ¬Accepts s sx scope input) : afterUpdate host s guid input scope = s := by
  unfold afterUpdate updateScheduledTransaction
  rw [hsx]
  cases hvalid : validateScheduledTransactionInput s scope input with
  | some e => rfl
  | none =>
    dsimp only
    split
    · rfl
    cases hcurrency : templateCurrency s.toDb sx with
    | none => rfl
    | some currencyGuid =>
      cases balanceSplitNumerators (input.splits.map InputSplit.amount) postingDenom with
      | error refusal => rfl
      | ok nums =>
        have htemplate : ¬hasTemplateAccount s.toDb sx = true := fun htemplate =>
          hnot ⟨hvalid, by simp [hcurrency], htemplate⟩
        dsimp only
        rw [if_neg htemplate]
        rfl

theorem scheduledToInput_eq_ok (h : scheduledToInput (listed s sx) = .ok input) :
    (patternsOf s.recurrences sx.guid).head? = some input.recurrence ∧
      input.endDate = sx.endDate ∧
      input.splits = (resolveTemplateSplits s.toDb sx.templateActGuid).map
        fun split => ⟨split.accountGuid, split.amount⟩ := by
  unfold scheduledToInput at h
  split at h
  · cases h
  · rename_i recurrence hrecurrence
    cases h
    exact ⟨hrecurrence, rfl, rfl⟩

theorem afterUpdate_of_accepts (host : Host) (hsx : s.schedule? guid = some sx)
    (hinput : scheduledToInput (listed s sx) = .ok input) (h : Accepts s sx scope input) :
    ∃ currencyGuid nums, balanceSplitNumerators (input.splits.map InputSplit.amount) postingDenom =
        .ok nums ∧
      afterUpdate host s guid input scope = rewriteSchedule host s sx currencyGuid input nums := by
  have hvalid := isValid_of_validate h.valid
  obtain ⟨currencyGuid, hcurrency⟩ := Option.isSome_iff_exists.1 h.currency
  obtain ⟨nums, hnums⟩ := hvalid.balances
  refine ⟨currencyGuid, nums, hnums, ?_⟩
  obtain ⟨-, -, hsplits⟩ := scheduledToInput_eq_ok hinput
  have hscope : ¬(scope.any fun guids => decide ((listed s sx).splits = []) ||
      (listed s sx).splits.any fun split => decide (split.accountGuid ∉ guids)) = true := by
    intro hany
    rw [Option.any_eq_true] at hany
    obtain ⟨guids, hguids, hany⟩ := hany
    rcases Bool.or_eq_true_iff.1 hany with hempty | hout
    · have hlength := hvalid.splits
      rw [hsplits, show resolveTemplateSplits s.toDb sx.templateActGuid = [] from
        of_decide_eq_true hempty] at hlength
      simp at hlength
    · obtain ⟨split, hsplit, hnot⟩ := List.any_eq_true.1 hout
      refine of_decide_eq_true hnot (hvalid.inScope guids hguids ⟨split.accountGuid, split.amount⟩ ?_)
      rw [hsplits]
      exact List.mem_map_of_mem hsplit
  unfold afterUpdate updateScheduledTransaction
  rw [hsx, h.valid]
  dsimp only
  rw [if_neg hscope, hcurrency, hnums]
  dsimp only
  rw [if_pos h.template]
  rfl

theorem guid_of_schedule? (hsx : s.schedule? guid = some sx) : sx.guid = guid := by
  simpa using List.find?_some hsx

theorem schedule?_rewriteSchedule {currencyGuid : String} {nums : List ℤ}
    (hsx : s.schedule? guid = some sx) :
    (rewriteSchedule host s sx currencyGuid input nums).schedule? guid =
      some { sx with name := input.name, endDate := input.endDate } := by
  obtain rfl := guid_of_schedule? hsx
  exact Rows.find?_editAt (fun _ => rfl) hsx

theorem patternsOf_rewriteSchedule {currencyGuid : String} {nums : List ℤ}
    (hmult : 1 ≤ input.recurrence.mult) :
    patternsOf (rewriteSchedule host s sx currencyGuid input nums).recurrences sx.guid =
      [input.recurrence] := by
  have hold : (s.recurrences.filter fun r => r.objGuid ≠ sx.guid).filter
      (fun r => r.objGuid = sx.guid) = [] := by
    rw [List.filter_filter]
    exact List.filter_eq_nil_iff.2 fun r _ => by simp
  have hne : input.recurrence.mult ≠ 0 := by omega
  simp only [patternsOf, rewriteSchedule, createTemplateContents, deleteTemplateContents,
    List.filter_append, hold, List.nil_append]
  simp [hne]

/-- The template resolves to the accounts of the input, with the numerators as amounts. -/
theorem resolve_rewriteSchedule {currencyGuid : String} {nums : List ℤ}
    (hfresh : FreshGuids host s.toDb) (hvalid : IsValid scope input)
    (hlength : nums.length = input.splits.length) :
    (resolveTemplateSplits (rewriteSchedule host s sx currencyGuid input nums).toDb
        sx.templateActGuid).map (fun r => (r.accountGuid, r.amount)) =
      (input.splits.map InputSplit.accountGuid).zip (nums.map fun n : ℤ => (n : ℚ) / 100) := by
  let renamed : Db := { deleteTemplateContents s.toDb sx with
    accounts := Rows.editAt Account.guid sx.templateActGuid (fun a => { a with name := input.name })
      (deleteTemplateContents s.toDb sx).accounts }
  have hsame : resolveTemplateSplits (rewriteSchedule host s sx currencyGuid input nums).toDb
      sx.templateActGuid = resolveTemplateSplits (createTemplateContents host renamed
        sx.templateActGuid currencyGuid input.name input.splits nums) sx.templateActGuid :=
    resolveTemplateSplits_congr rfl rfl rfl _
  have hfresh' : FreshGuids host renamed :=
    ⟨hfresh.injective, fun n hn p hp => hfresh.splits n hn p (List.mem_of_mem_filter hp),
      fun n hn r hr => hfresh.slots n hn r (List.mem_of_mem_filter hr)⟩
  have hchildren : ∀ a ∈ renamed.accounts, a.parentGuid ≠ some sx.templateActGuid := by
    intro a ha hparent
    obtain ⟨b, hb, rfl⟩ := Rows.mem_editAt.1 ha
    have hparent' : b.parentGuid = some sx.templateActGuid := by
      split at hparent <;> exact hparent
    obtain ⟨hmem, hnot⟩ := List.mem_filter.1 hb
    refine of_decide_eq_true hnot (List.mem_map_of_mem (List.mem_filter.2 ⟨hmem, ?_⟩))
    exact decide_eq_true hparent'
  have hne : input.splits ≠ [] := fun hnil => by
    have hsplits := hvalid.splits
    simp [hnil] at hsplits
  rw [hsame]
  exact resolve_filled hfresh' hchildren hvalid.guids hne hlength

theorem keeps_rewriteSchedule_iff {currencyGuid : String} {nums : List ℤ}
    (hfresh : FreshGuids host s.toDb) (hsx : s.schedule? guid = some sx)
    (hinput : scheduledToInput (listed s sx) = .ok input) (hvalid : IsValid scope input)
    (hnums : balanceSplitNumerators (input.splits.map InputSplit.amount) postingDenom = .ok nums) :
    (resolvedOf (rewriteSchedule host s sx currencyGuid input nums) guid = resolvedOf s guid ∧
      ∀ count today, upcomingOf (rewriteSchedule host s sx currencyGuid input nums) guid count today =
        upcomingOf s guid count today) ↔ IsSimple s sx := by
  obtain ⟨hrecurrence, hend, hsplits⟩ := scheduledToInput_eq_ok hinput
  have hguid := guid_of_schedule? hsx
  set resolved := resolveTemplateSplits s.toDb sx.templateActGuid with hresolved
  have haccounts : input.splits.map InputSplit.accountGuid = resolved.map ResolvedSplit.accountGuid := by
    rw [hsplits, List.map_map]
    rfl
  have hamounts : input.splits.map InputSplit.amount = resolved.map ResolvedSplit.amount := by
    rw [hsplits, List.map_map]
    rfl
  have hlength : nums.length = input.splits.length := by
    rw [length_of_balance hnums, List.length_map]
  have hsame : resolvedOf (rewriteSchedule host s sx currencyGuid input nums) guid =
      resolvedOf s guid ↔ (∀ r ∈ resolved, WholeCents r.amount) ∧
        (resolved.map ResolvedSplit.amount).sum = 0 := by
    have hread : (resolveTemplateSplits (rewriteSchedule host s sx currencyGuid input nums).toDb
        sx.templateActGuid).map (fun r => (r.accountGuid, r.amount)) =
          (input.splits.map InputSplit.accountGuid).zip (nums.map fun n : ℤ => (n : ℚ) / 100) :=
      resolve_rewriteSchedule hfresh hvalid hlength
    rw [resolvedOf, schedule?_rewriteSchedule hsx, resolvedOf, hsx, Option.map_some,
      Option.map_some, Option.some.injEq, hread, ← hresolved, haccounts, ← List.zip_map']
    rw [hamounts] at hnums
    rw [← List.forall_mem_map, ← cents_of_balance_iff hnums]
    constructor
    · intro h
      have hlength' : nums.length = resolved.length := by
        rw [length_of_balance hnums, List.length_map]
      have hsnd := congrArg (List.map Prod.snd) h
      rwa [List.map_snd_zip (by simp [hlength']), List.map_snd_zip (by simp)] at hsnd
    · intro h
      rw [h]
  have hupcoming (count : ℕ) (today : ℤ) :
      upcomingOf (rewriteSchedule host s sx currencyGuid input nums) guid count today =
        upcomingOf s guid count today ↔
      upcomingUnder ((patternsOf s.recurrences sx.guid).take 1) sx count today =
        upcomingUnder (patternsOf s.recurrences sx.guid) sx count today := by
    have htake : (patternsOf s.recurrences sx.guid).take 1 = [input.recurrence] := by
      rw [List.take_one, hrecurrence]
      rfl
    have hrow (patterns : List RecurrencePattern) :
        upcomingUnder patterns { sx with name := input.name, endDate := input.endDate } count today =
          upcomingUnder patterns sx count today := by
      unfold upcomingUnder
      rw [hend]
    rw [upcomingOf, schedule?_rewriteSchedule hsx, upcomingOf, hsx, Option.map_some,
      Option.map_some, Option.some.injEq, hrow, patternsOf_rewriteSchedule hvalid.mult, htake]
  simp only [hsame, hupcoming]
  exact ⟨fun h => ⟨h.1.1, h.1.2, h.2⟩, fun h => ⟨⟨h.whole, h.balanced⟩, h.firstRow⟩⟩

/-- An update with the schedule's own data keeps it exactly when it is refused or the schedule is
simple. -/
theorem editKeeps_iff (hfresh : FreshGuids host s.toDb) (hsx : s.schedule? guid = some sx) :
    EditKeeps host s guid scope ↔ ∀ input, scheduledToInput (listed s sx) = .ok input →
      Accepts s sx scope input → IsSimple s sx := by
  have hlisted : getScheduledTransaction s guid = some (listed s sx) := by
    rw [getScheduledTransaction, hsx, Option.map_some]
  constructor
  · intro h input hinput haccepts
    obtain ⟨currencyGuid, nums, hnums, hafter⟩ := afterUpdate_of_accepts host hsx hinput haccepts
    have hkeeps := h _ input hlisted hinput
    rw [hafter] at hkeeps
    exact (keeps_rewriteSchedule_iff hfresh hsx hinput (isValid_of_validate haccepts.valid)
      hnums).1 hkeeps
  · intro h before input hbefore hinput
    obtain rfl : listed s sx = before := Option.some.inj (hlisted.symm.trans hbefore)
    by_cases haccepts : Accepts s sx scope input
    · obtain ⟨currencyGuid, nums, hnums, hafter⟩ := afterUpdate_of_accepts host hsx hinput haccepts
      rw [hafter]
      exact (keeps_rewriteSchedule_iff hfresh hsx hinput (isValid_of_validate haccepts.valid)
        hnums).2 (h input hinput haccepts)
    · rw [afterUpdate_of_not_accepts hsx haccepts]
      exact ⟨rfl, fun _ _ => rfl⟩

/-! ## The deletion -/

theorem notMem_childGuids (h : hasTemplateAccount s.toDb sx = true) :
    sx.templateActGuid ∉ childGuids s.toDb sx := by
  obtain ⟨a, ha, hguid⟩ := List.mem_map.1 (of_decide_eq_true h)
  rw [← hguid]
  exact of_decide_eq_true (List.mem_filter.1 ha).2

def withoutSchedule (s : EditDb) (sx : SchedXAction) : EditDb :=
  let cleared := deleteTemplateContents s.toDb sx
  { s with
    toDb := { cleared with
      recurrences := cleared.recurrences.filter fun r => r.objGuid ≠ sx.guid
      schedxactions := cleared.schedxactions.filter fun row => row.guid ≠ sx.guid
      slots := cleared.slots.filter fun r => r.objGuid ≠ sx.templateActGuid
      accounts := cleared.accounts.filter fun a => a.guid ≠ sx.templateActGuid } }

theorem deleteScheduledTransaction_eq_ok_iff (hsx : s.schedule? sx.guid = some sx) {s' : EditDb}
    {snapshot : Option CreateScheduledTxInput} :
    deleteScheduledTransaction s sx.guid = .ok (s', snapshot) ↔
      ∃ input, scheduledToInput (listed s sx) = .ok input ∧ hasTemplateAccount s.toDb sx = true ∧
        s' = withoutSchedule s sx ∧ snapshot = some input := by
  unfold deleteScheduledTransaction
  rw [hsx]
  cases hinput : scheduledToInput (listed s sx) with
  | error e => simp [bind, Except.bind, hinput]
  | ok input =>
    by_cases htemplate : hasTemplateAccount s.toDb sx = true
    · simp [bind, Except.bind, hinput, htemplate, withoutSchedule, eq_comm]
    · simp [bind, Except.bind, hinput, htemplate]

theorem isGone_withoutSchedule_iff (htemplate : hasTemplateAccount s.toDb sx = true) :
    IsGone s.toDb sx (withoutSchedule s sx).toDb ↔
      (∀ p ∈ s.splits, p.accountGuid ≠ sx.templateActGuid) ∧
      ∀ r ∈ s.slots, Belongs s.toDb sx r.objGuid →
        r.objGuid ∈ templateAccounts s.toDb sx ∨ r.objGuid ∈ transactionGuids s.toDb sx := by
  have hslots {r : Slot} : r ∈ (withoutSchedule s sx).slots ↔ r ∈ s.slots ∧
      r.objGuid ∉ templateAccounts s.toDb sx ∧ r.objGuid ∉ transactionGuids s.toDb sx := by
    simp [withoutSchedule, deleteTemplateContents, templateAccounts, and_assoc, and_left_comm]
  have hsplits {p : Split} : p ∈ (withoutSchedule s sx).splits ↔
      p ∈ s.splits ∧ p.accountGuid ∉ childGuids s.toDb sx := by
    simp [withoutSchedule, deleteTemplateContents]
  constructor
  · intro h
    refine ⟨fun p hp haccount => ?_, fun r hr hbelongs => ?_⟩
    · refine h.splits p (hsplits.2 ⟨hp, ?_⟩) (haccount ▸ List.mem_cons_self)
      exact haccount ▸ notMem_childGuids htemplate
    · by_contra hnot
      rw [not_or] at hnot
      exact h.slots r (hslots.2 ⟨hr, hnot⟩) hbelongs
  · rintro ⟨happ, hobjects⟩
    refine ⟨fun a ha => ?_, fun p hp => ?_, fun p hp haccount t ht hguid => ?_, fun r hr hb => ?_⟩
    · simp only [withoutSchedule, deleteTemplateContents, List.mem_filter, decide_eq_true_eq] at ha
      simp [templateAccounts, ha.1.2, ha.2]
    · obtain ⟨hp, hchild⟩ := hsplits.1 hp
      exact fun hmem => (List.mem_cons.1 hmem).elim (happ p hp) hchild
    · have hchild := (List.mem_cons.1 haccount).resolve_left (happ p hp)
      have hnot := (List.mem_filter.1 ht).2
      refine of_decide_eq_true hnot (hguid ▸ List.mem_map_of_mem (List.mem_filter.2 ⟨hp, ?_⟩))
      exact decide_eq_true hchild
    · obtain ⟨hr, haccounts, htransactions⟩ := hslots.1 hr
      exact (hobjects r hr hb).elim haccounts htransactions

theorem deletesAll_iff (hsx : s.schedule? sx.guid = some sx) :
    DeletesAll s sx ↔ IsDeletable s sx := by
  constructor
  · rintro ⟨s', snapshot, hdelete, -, hgone⟩
    obtain ⟨input, hinput, htemplate, rfl, -⟩ := (deleteScheduledTransaction_eq_ok_iff hsx).1 hdelete
    obtain ⟨happ, hslots⟩ := (isGone_withoutSchedule_iff htemplate).1 hgone
    refine ⟨fun hnil => ?_, htemplate, happ, hslots⟩
    have hhead := (scheduledToInput_eq_ok hinput).1
    simp [hnil] at hhead
  · intro h
    obtain ⟨recurrence, hrecurrence⟩ : ∃ r, (patternsOf s.recurrences sx.guid).head? = some r :=
      Option.isSome_iff_exists.1 (by simpa using h.recurrence)
    obtain ⟨input, hinput⟩ : ∃ input, scheduledToInput (listed s sx) = .ok input := by
      unfold scheduledToInput
      rw [show (listed s sx).recurrence = some recurrence from hrecurrence]
      exact ⟨_, rfl⟩
    refine ⟨withoutSchedule s sx, some input,
      (deleteScheduledTransaction_eq_ok_iff hsx).2 ⟨input, hinput, h.template, rfl, rfl⟩, ?_,
      (isGone_withoutSchedule_iff h.template).2 ⟨h.appLayout, h.slots⟩⟩
    refine List.find?_eq_none.2 fun row hrow => ?_
    simpa using (List.mem_filter.1 hrow).2

/-- A schedule is kept by an update with its own data and deleted with its template: exactly when it
has a recurrence and a template in the app layout, whose slots are not on splits or in frames, and
the update is refused or the amounts are whole cents that sum to zero and the first recurrence row
gives all occurrences. -/
theorem editKeeps_and_deletesAll_iff (host : Host) (s : EditDb) (sx : SchedXAction)
    (scope : Option (List String)) (hsx : s.schedule? sx.guid = some sx)
    (hfresh : FreshGuids host s.toDb) :
    (EditKeeps host s sx.guid scope ∧ DeletesAll s sx) ↔
      (∀ input, scheduledToInput (listed s sx) = .ok input → Accepts s sx scope input →
        IsSimple s sx) ∧ IsDeletable s sx :=
  and_congr (editKeeps_iff hfresh hsx) (deletesAll_iff hsx)

/-! ## Twice a month -/

/-- A schedule on the first and the fifteenth: ten euros from one account to another. -/
def twiceMonthly : EditDb where
  accounts := [⟨"root", "", .root, some "eur", 100, none⟩,
    ⟨"cash", "Cash", .bank, some "eur", 100, some "root"⟩,
    ⟨"rent", "Rent", .expense, some "eur", 100, some "root"⟩,
    ⟨"template", "Rent", .bank, some "eur", 100, some "templates"⟩,
    ⟨"child1", "", .bank, some "eur", 100, some "template"⟩,
    ⟨"child2", "", .bank, some "eur", 100, some "template"⟩]
  bookRoots := ["root"]
  transactions := [⟨"tx", "eur", none, "Rent"⟩]
  splits := [⟨"split1", "tx", "child1", "", "", .n, none, ⟨-1000, 100⟩, ⟨-1000, 100⟩, none⟩,
    ⟨"split2", "tx", "child2", "", "", .n, none, ⟨1000, 100⟩, ⟨1000, 100⟩, none⟩]
  slots := [⟨"child1", "account", 4, some "cash", none, none⟩,
    ⟨"child2", "account", 4, some "rent", none, none⟩]
  schedxactions := [⟨"sx", "Rent", 1, none, none, -1, 0, "template"⟩]
  recurrences := [⟨"sx", 1, .month, some (Civil.newDate 2024 0 1), .none⟩,
    ⟨"sx", 1, .month, some (Civil.newDate 2024 0 15), .none⟩]
  drawn := 0
  details _ := ⟨none, 0, 0⟩
  isPlaceholder _ := false

def twiceMonthlyRow : SchedXAction := ⟨"sx", "Rent", 1, none, none, -1, 0, "template"⟩

def numberedHost : Host where
  generateGuid n := String.ofList ('g' :: Text.natDigits n)
  now := 0

theorem numberedHost_ne {g : String} (h : g.toList.head? ≠ some 'g') (n : ℕ) :
    g ≠ numberedHost.generateGuid n := by
  rintro rfl
  exact h (by simp [numberedHost])

theorem freshGuids_twiceMonthly : FreshGuids numberedHost twiceMonthly.toDb where
  injective m n h := by
    have hlist := congrArg String.toList h
    have hdigits : Text.natDigits m = Text.natDigits n := by simpa [numberedHost] using hlist
    have hread := congrArg Text.readDecimal hdigits
    rw [Text.readDecimal_natDigits, Text.readDecimal_natDigits] at hread
    exact Option.some.inj hread
  splits n _ p hp := by
    refine numberedHost_ne ?_ n
    revert p
    decide +kernel
  slots n _ r hr := by
    refine numberedHost_ne ?_ n
    revert r
    decide +kernel

theorem editKeeps_and_deletesAll_twiceMonthly :
    twiceMonthly.schedule? "sx" = some twiceMonthlyRow ∧ FreshGuids numberedHost twiceMonthly.toDb ∧
      ((EditKeeps numberedHost twiceMonthly "sx" none ∧ DeletesAll twiceMonthly twiceMonthlyRow) ↔
        (∀ input, scheduledToInput (listed twiceMonthly twiceMonthlyRow) = .ok input →
          Accepts twiceMonthly twiceMonthlyRow none input → IsSimple twiceMonthly twiceMonthlyRow) ∧
        IsDeletable twiceMonthly twiceMonthlyRow) := by
  have hsx : twiceMonthly.schedule? "sx" = some twiceMonthlyRow := by decide +kernel
  exact ⟨hsx, freshGuids_twiceMonthly, editKeeps_and_deletesAll_iff numberedHost twiceMonthly
    twiceMonthlyRow none hsx freshGuids_twiceMonthly⟩

/-- An update drops the fifteenth. -/
theorem not_editKeeps_twiceMonthly :
    ¬ ∀ (host : Host) (s : EditDb) (sx : SchedXAction) (scope : Option (List String)),
      s.schedule? sx.guid = some sx → FreshGuids host s.toDb →
        EditKeeps host s sx.guid scope ∧ DeletesAll s sx := by
  intro h
  have hsx : twiceMonthly.schedule? "sx" = some twiceMonthlyRow := by decide +kernel
  have hkeeps := (h numberedHost twiceMonthly twiceMonthlyRow none hsx freshGuids_twiceMonthly).1
  let input : CreateScheduledTxInput := ⟨"Rent", Civil.newDate 2024 0 1, none,
    ⟨.month, 1, Civil.newDate 2024 0 1, .none⟩, [⟨"cash", -10⟩, ⟨"rent", 10⟩], false, false⟩
  have hinput : scheduledToInput (listed twiceMonthly twiceMonthlyRow) = .ok input := by
    decide +kernel
  have haccepts : Accepts twiceMonthly twiceMonthlyRow none input :=
    ⟨by decide +kernel, by decide +kernel, by decide +kernel⟩
  have hsimple := (editKeeps_iff freshGuids_twiceMonthly hsx).1 hkeeps input hinput haccepts
  have hfirst := hsimple.firstRow 1 (Civil.newDate 2024 0 10)
  exact absurd hfirst (by decide +kernel)

end Schedule
