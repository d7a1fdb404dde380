import GnucashWeb.Business.Totals
import GnucashWeb.Imports.Commit

/-!
# What an import writes is balanced

A transaction is written with numerators that add up to zero exactly when its amounts settle: their
total, in units of the currency, is what rounding them takes away (`sum_numerators_eq_zero_iff`).  The
total of a settlement or a personal transaction is zero, so that only rounding can unbalance it; an
accepted QuickBooks transaction may be a cent out.  Over a fraction of whole hundreds nothing is rounded
(`settles_iff_of_dvd`).  The result for a whole commit is `balanced_iff_settled`.
-/

namespace Imports

open Ledger (WholeCents fromDecimal mathRound round2)
open Rounding

/-! ## Amounts that settle -/

/-- What the amounts come to in units is what rounding each to units takes away. -/
def Settles (fraction : ℤ) (amounts : List ℚ) : Prop :=
  amounts.sum * fraction = (amounts.map fun a => excess (a * (fraction : ℚ))).sum

theorem num_fromDecimal (amount : ℚ) (fraction : ℤ) :
    (fromDecimal amount fraction).num = round (amount * fraction) :=
  Business.mathRound_eq_round _

theorem sum_numerators_eq_zero_iff (fraction : ℤ) (amounts : List ℚ) :
    (amounts.map fun a => (fromDecimal a fraction).num).sum = 0 ↔ Settles fraction amounts := by
  have hsum := sum_eq_sum_round_add (amounts.map fun a => a * (fraction : ℚ))
  rw [List.sum_map_mul_right, List.map_id', List.map_map, List.map_map] at hsum
  simp only [num_fromDecimal]
  unfold Settles
  rw [hsum]
  constructor
  · intro hzero
    rw [show (round ∘ fun a : ℚ => a * (fraction : ℚ)) = fun a => round (a * (fraction : ℚ)) from rfl,
      hzero, Int.cast_zero, zero_add]
    rfl
  · intro hequal
    exact_mod_cast add_eq_right.1 hequal

theorem excess_eq_zero_of_dvd {fraction : ℤ} (h : 100 ∣ fraction) {amount : ℚ}
    (hamount : WholeCents amount) : excess (amount * fraction) = 0 := by
  obtain ⟨k, rfl⟩ := h
  obtain ⟨n, hn⟩ := Ledger.wholeCents_iff.1 hamount
  have hunits : amount * ((100 * k : ℤ) : ℚ) = ((n * k : ℤ) : ℚ) := by
    push_cast
    rw [← hn]
    ring
  rw [hunits, excess_intCast]

/-- Over a fraction of hundreds amounts in cents settle exactly when their total is zero. -/
theorem settles_iff_of_dvd {fraction : ℤ} (h : 100 ∣ fraction) (hne : fraction ≠ 0)
    {amounts : List ℚ} (hamounts : ∀ a ∈ amounts, WholeCents a) :
    Settles fraction amounts ↔ amounts.sum = 0 := by
  have hzero : (amounts.map fun a => excess (a * (fraction : ℚ))).sum = 0 := by
    refine List.sum_eq_zero fun x hx => ?_
    obtain ⟨a, ha, rfl⟩ := List.mem_map.1 hx
    exact excess_eq_zero_of_dvd h (hamounts a ha)
  rw [Settles, hzero, mul_eq_zero, or_iff_left (Int.cast_ne_zero.2 hne)]

/-- An amount and its opposite settle unless the amount is half-way between two units. -/
theorem settles_pair_iff (fraction : ℤ) (amount : ℚ) :
    Settles fraction [amount, -amount] ↔ Int.fract (amount * fraction) ≠ 1 / 2 := by
  have hlow := (excess_mem (amount * fraction)).1
  have hhigh := (excess_mem (amount * fraction)).2
  have hlow' := (excess_mem (-amount * fraction)).1
  have hhigh' := (excess_mem (-amount * fraction)).2
  have hint : excess (amount * fraction) + excess (-amount * fraction) =
      ((-(round (amount * fraction) + round (-amount * fraction)) : ℤ) : ℚ) := by
    unfold excess
    push_cast
    ring
  simp only [Settles, List.sum_cons, List.sum_nil, List.map_cons, List.map_nil, add_zero,
    add_neg_cancel, zero_mul]
  rw [ne_eq, ← excess_eq_neg_half_iff]
  constructor
  · intro hsum hhalf
    linarith
  · intro hne
    have hfract : excess (-amount * fraction) ≠ -1 / 2 := by
      rwa [ne_eq, neg_mul, excess_eq_neg_half_iff, fract_neg_eq_half_iff, ← excess_eq_neg_half_iff]
    have hlt := lt_of_le_of_ne hlow (Ne.symm hne)
    have hlt' := lt_of_le_of_ne hlow' (Ne.symm hfract)
    have hlower : ((-1 : ℤ) : ℚ) < excess (amount * fraction) + excess (-amount * fraction) := by
      push_cast
      linarith
    have hupper : excess (amount * fraction) + excess (-amount * fraction) < ((1 : ℤ) : ℚ) := by
      push_cast
      linarith
    rw [hint, Int.cast_lt] at hlower hupper
    rw [hint, eq_comm, Int.cast_eq_zero]
    omega

def QboAmounts (toLowerCase : List Char → List Char) (locale : ImportLocale) :
    QboSourceFormat × List (List Cell) → List ℚ → Prop
  | (.journal, rows), amounts => amounts ∈ journalAmounts toLowerCase rows locale
  | (.generalLedger, rows), amounts =>
    ∃ e ∈ (readGl toLowerCase rows locale).1,
      groupAmounts (((readGl toLowerCase rows locale).1.filter fun e' =>
        e'.key toLowerCase = e.key toLowerCase).map GlEntry.amount) = some amounts

theorem numerators_writeQbo (fraction : ℤ) (txn : QboJournalTransaction) :
    (writeQbo fraction txn).numerators =
      txn.amounts.map fun a => (fromDecimal a fraction).num := by
  simp [writeQbo, WrittenTransaction.numerators, QboJournalTransaction.amounts, Function.comp_def]

theorem amounts_parse (toLowerCase : List Char → List Char) (locale : ImportLocale)
    (source : QboSourceFormat × List (List Cell)) (amounts : List ℚ) :
    (∃ txn ∈ (parseChosen toLowerCase locale source).transactions, txn.amounts = amounts) ↔
      QboAmounts toLowerCase locale source amounts := by
  obtain ⟨_ | _, rows⟩ := source
  · rw [← List.mem_map]
    simp only [parseChosen, amounts_parseQboJournalRows]
    rfl
  · rw [← List.mem_map]
    exact mem_amounts_parseQboGeneralLedgerRows ..

def SettlementRecord.legs (r : SettlementRecord) : List ℚ :=
  if r.kind = .payout then [r.net, -r.net] else [r.net, r.fee, -r.gross]

theorem sum_pushSplit (fraction : ℤ) (role : SettlementRole) {amount : ℚ} (h : WholeCents amount) :
    ((pushSplit role amount).map fun split => (fromDecimal split.2 fraction).num).sum =
      (fromDecimal amount fraction).num := by
  unfold pushSplit
  rw [Ledger.round2_of_wholeCents h]
  split
  · simp
  · rename_i hsmall
    obtain ⟨n, hn⟩ := Ledger.wholeCents_iff.1 h
    have hbound : |(n : ℚ)| < 1 := by
      rw [← hn, abs_mul]
      norm_num
      linarith [not_le.1 hsmall]
    have hzero : n = 0 := by
      rw [← Int.cast_abs] at hbound
      exact Int.abs_lt_one_iff.1 (by exact_mod_cast hbound)
    have hamount : amount = 0 := by
      rw [hzero, Int.cast_zero] at hn
      linarith
    simp [num_fromDecimal, hamount]

theorem sum_numerators_buildSettlementSplits (fraction : ℤ) {r : SettlementRecord}
    (h : r.InCents) :
    ((buildSettlementSplits r).map fun split => (fromDecimal split.2 fraction).num).sum =
      (r.legs.map fun a => (fromDecimal a fraction).num).sum := by
  unfold buildSettlementSplits SettlementRecord.legs
  split
  · rw [List.map_append, List.sum_append, sum_pushSplit fraction _ h.2.2,
      sum_pushSplit fraction _ h.2.2.neg]
    simp
  · rw [List.map_append, List.map_append, List.sum_append, List.sum_append,
      sum_pushSplit fraction _ h.2.2, sum_pushSplit fraction _ h.2.1,
      sum_pushSplit fraction _ h.1.neg]
    simp [add_assoc]

/-! ## Commits -/

/-- A commit with its upload and what it reads of the database. -/
inductive ImportCommit
  | qbo (bookName : Cell) (upload : QboUpload) (locale : ImportLocale)
      (currencyFraction : Option ℤ)
  | settlement (source : SettlementSource) (input : SettlementImportInput)
      (existingStamps : Cell → Bool) (book : BookContext)
  | personal (source : PersonalSource) (input : PersonalImportInput) (accounts : List BookAccount)
      (existing : List ExistingTransactionKey) (book : BookContext)

section Commits

variable (toLowerCase toUpperCase : List Char → List Char)

/-- The numerators of the transactions that are written; a commit that fails writes none. -/
def writtenNumerators {E Account : Type} :
    Except E (List (WrittenTransaction Account)) → List (List ℤ)
  | .ok written => written.map WrittenTransaction.numerators
  | .error _ => []

def ImportCommit.numerators : ImportCommit → List (List ℤ)
  | .qbo bookName upload locale currencyFraction =>
    writtenNumerators (commitQboImport toLowerCase bookName upload locale currencyFraction)
  | .settlement source input existingStamps book =>
    writtenNumerators
      (commitSettlementImport toLowerCase toUpperCase source input existingStamps book)
  | .personal source input accounts existing book =>
    writtenNumerators (commitPersonalImport toLowerCase source input accounts existing book)

def ImportCommit.Balanced (c : ImportCommit) : Prop :=
  ∀ numerators ∈ c.numerators toLowerCase toUpperCase, numerators.sum = 0

/-- The amounts that are imported settle; an amount of a personal export is posted with its
opposite. -/
def ImportCommit.Settled : ImportCommit → Prop
  | .qbo bookName upload locale currencyFraction =>
    Text.trim bookName ≠ [] → ∀ source, chooseSource toLowerCase upload = .ok source →
      ∀ amounts, QboAmounts toLowerCase locale source amounts →
        Settles (fractionOr100 (currencyFraction.getD 100)) amounts
  | .settlement source input existingStamps book =>
    ∀ fraction, book.currencyFraction = some fraction →
      ∀ p ∈ importableSettlements existingStamps input.skipDuplicates book.lockDate []
        (planSettlement source
          (parseSettlementCsv toLowerCase toUpperCase input.locale source input.content).records),
        Settles (fractionOr100 fraction) p.record.legs
  | .personal source input accounts existing book =>
    ∀ fraction, book.currencyFraction = some fraction →
      ∀ r ∈ (divideRecords toLowerCase accounts input.options
        (parsePersonalCsv toLowerCase source input.content input.locale).records existing).1,
        isLocked book.lockDate r.date = false →
          Int.fract (r.amount * fractionOr100 fraction) ≠ 1 / 2

theorem balanced_qbo_iff (bookName : Cell) (upload : QboUpload) (locale : ImportLocale)
    (currencyFraction : Option ℤ) :
    ImportCommit.Balanced toLowerCase toUpperCase (.qbo bookName upload locale currencyFraction) ↔
      ImportCommit.Settled toLowerCase toUpperCase
        (.qbo bookName upload locale currencyFraction) := by
  simp only [ImportCommit.Balanced, ImportCommit.Settled, ImportCommit.numerators, commitQboImport,
    parseSource]
  by_cases hname : Text.trim bookName = []
  · simp [hname, writtenNumerators]
  · cases hsource : chooseSource toLowerCase upload with
    | error e => simp [hname, writtenNumerators, Except.map]
    | ok source =>
      have hall : (∀ txn ∈ (parseChosen toLowerCase locale source).transactions,
            (writeQbo (fractionOr100 (currencyFraction.getD 100)) txn).numerators.sum = 0) ↔
          ∀ amounts, QboAmounts toLowerCase locale source amounts →
            Settles (fractionOr100 (currencyFraction.getD 100)) amounts := by
        simp only [numerators_writeQbo, sum_numerators_eq_zero_iff, ← amounts_parse]
        exact ⟨fun h amounts ⟨txn, htxn, hamounts⟩ => hamounts ▸ h txn htxn,
          fun h txn htxn => h _ ⟨txn, htxn, rfl⟩⟩
      by_cases hnone : (parseChosen toLowerCase locale source).transactions = []
      · rw [hnone] at hall
        simpa [hname, writtenNumerators, Except.map, hnone] using hall
      · simpa [hname, writtenNumerators, Except.map, hnone] using hall

theorem writtenNumerators_commitRows {Planned Account : Type} (book : BookContext)
    (write : ℤ → Planned → WrittenTransaction Account) (importable : List Planned) :
    (∀ numerators ∈ writtenNumerators (commitRows book write importable), numerators.sum = 0) ↔
      ∀ fraction, book.currencyFraction = some fraction →
        ∀ p ∈ importable, (write (fractionOr100 fraction) p).numerators.sum = 0 := by
  unfold commitRows
  by_cases hnone : importable = []
  · simp [hnone, writtenNumerators]
  · cases book.currencyFraction <;> simp [hnone, writtenNumerators]

theorem mem_of_mem_importableSettlements {existingStamps : Cell → Bool} {skip : Bool}
    {lockDate : Option ℤ} {seen : List (Cell × ℚ)} {planned : List PlannedSettlementTransaction}
    {p : PlannedSettlementTransaction}
    (hp : p ∈ importableSettlements existingStamps skip lockDate seen planned) : p ∈ planned := by
  induction planned generalizing seen with
  | nil => exact hp
  | cons first planned ih =>
    have hkeep : ∀ seen', p ∈ (if isLocked lockDate first.record.date then
        importableSettlements existingStamps skip lockDate seen' planned
        else first :: importableSettlements existingStamps skip lockDate seen' planned) →
        p ∈ first :: planned := by
      intro seen' h
      split at h
      · exact List.mem_cons_of_mem _ (ih h)
      · rcases List.mem_cons.1 h with rfl | h
        · exact List.mem_cons_self
        · exact List.mem_cons_of_mem _ (ih h)
    unfold importableSettlements at hp
    simp only at hp
    split at hp
    · exact hkeep _ hp
    · split at hp
      · exact List.mem_cons_of_mem _ (ih hp)
      · exact hkeep _ hp

theorem balanced_settlement_iff (source : SettlementSource) (input : SettlementImportInput)
    (existingStamps : Cell → Bool) (book : BookContext) :
    ImportCommit.Balanced toLowerCase toUpperCase (.settlement source input existingStamps book) ↔
      ImportCommit.Settled toLowerCase toUpperCase
        (.settlement source input existingStamps book) := by
  simp only [ImportCommit.Balanced, ImportCommit.Settled, ImportCommit.numerators,
    commitSettlementImport]
  rw [writtenNumerators_commitRows]
  refine forall₂_congr fun fraction _ => forall₂_congr fun p hp => ?_
  obtain ⟨record, hrecord, rfl⟩ :=
    List.mem_map.1 (List.mem_filter.1 (mem_of_mem_importableSettlements hp)).1
  rw [← sum_numerators_eq_zero_iff,
    ← sum_numerators_buildSettlementSplits _ (reconciled_parseSettlementCsv hrecord).1]
  simp [writeSettlement, WrittenTransaction.numerators, Function.comp_def]

theorem numerators_writePersonal (fraction : ℤ) (txn : PlannedPersonalTransaction) :
    (writePersonal fraction txn).numerators =
      (txn.splits.map fun s => s.2.2).map fun a => (fromDecimal a fraction).num := by
  simp [writePersonal, WrittenTransaction.numerators, Function.comp_def]

theorem balanced_personal_iff (source : PersonalSource) (input : PersonalImportInput)
    (accounts : List BookAccount) (existing : List ExistingTransactionKey) (book : BookContext) :
    ImportCommit.Balanced toLowerCase toUpperCase (.personal source input accounts existing book) ↔
      ImportCommit.Settled toLowerCase toUpperCase
        (.personal source input accounts existing book) := by
  simp only [ImportCommit.Balanced, ImportCommit.Settled, ImportCommit.numerators,
    commitPersonalImport]
  rw [writtenNumerators_commitRows]
  refine forall₂_congr fun fraction _ => ?_
  simp only [importablePersonal, buildPersonalPlan, List.mem_filter, List.mem_map, and_imp,
    forall_exists_index, forall_apply_eq_imp_iff₂, Bool.not_eq_eq_eq_not, Bool.not_true]
  refine forall₃_congr fun r hr _ => ?_
  have hcents := wholeCents_parsePersonalCsv (mem_divideRecords hr)
  rw [numerators_writePersonal, amounts_plannedTransaction _ hcents, sum_numerators_eq_zero_iff,
    settles_pair_iff]

end Commits

/-- A Journal report with a debit of 10.00 and a credit of 9.99, imported in a currency of
hundreds. -/
def centOut : ImportCommit :=
  .qbo "Books".toList
    (.journalContent
      ("Date,Transaction Type,Num,Name,Memo,Account,Debit,Credit\n".toList ++
        "01/15/2025,Journal Entry,1,,,Cash,10.00,\n,,,,,Sales,,9.99\n".toList))
    (IMPORT_LOCALES .us) (some 100)

end Imports
