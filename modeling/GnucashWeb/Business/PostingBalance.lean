import GnucashWeb.Business.Totals
import GnucashWeb.Lib.ListSums
import Mathlib.Algebra.BigOperators.Ring.Finset

/-!
# Whether a posting balances

Every net and every tax is rounded to the currency once, and what is added up after that is rounded
without a change.  So the total of a document is the sum of its nets and taxes, and the splits of its
posting sum to zero, whenever the values are numbers at all (`posting_balances_iff`): an included tax
of minus one hundred percent divides by zero.
-/

open Ledger

namespace Business

variable {fraction : ℕ}

/-! ## Whole numbers of units -/

def IsWhole (fraction : ℕ) (value : ℚ) : Prop := ∃ n : ℤ, value = n / fraction

theorem isWhole_zero : IsWhole fraction 0 := ⟨0, by simp⟩

theorem isWhole_roundCurrency (value : ℚ) : IsWhole fraction (roundCurrency value fraction) :=
  ⟨units value fraction, rfl⟩

theorem IsWhole.add {x y : ℚ} (hx : IsWhole fraction x) (hy : IsWhole fraction y) :
    IsWhole fraction (x + y) := by
  obtain ⟨m, rfl⟩ := hx
  obtain ⟨n, rfl⟩ := hy
  exact ⟨m + n, by push_cast; ring⟩

theorem IsWhole.sign_mul {x : ℚ} (hx : IsWhole fraction x) (kind : InvoiceKind) :
    IsWhole fraction (kind.sign * x) ∧ IsWhole fraction (-kind.sign * x) := by
  obtain ⟨n, rfl⟩ := hx
  cases kind
  · exact ⟨⟨n, one_mul _⟩, -n, by rw [InvoiceKind.sign]; push_cast; ring⟩
  · exact ⟨⟨-n, by rw [InvoiceKind.sign]; push_cast; ring⟩, n, by rw [InvoiceKind.sign]; ring⟩

theorem isWhole_sum {α : Type} {f : α → ℚ} {l : List α} (h : ∀ x ∈ l, IsWhole fraction (f x)) :
    IsWhole fraction (l.map f).sum := by
  induction l with
  | nil => exact isWhole_zero
  | cons x l ih =>
    rw [List.map_cons, List.sum_cons]
    exact (h x List.mem_cons_self).add (ih fun y hy => h y (List.mem_cons_of_mem _ hy))

theorem IsWhole.roundCurrency_eq (hf : 0 < fraction) {x : ℚ} (hx : IsWhole fraction x) :
    roundCurrency x fraction = x := by
  obtain ⟨n, rfl⟩ := hx
  exact roundCurrency_div hf n

theorem IsWhole.num_fromDecimal (hf : 0 < fraction) {x : ℚ} (hx : IsWhole fraction x) :
    ((fromDecimal x fraction).num : ℚ) = x * fraction := by
  obtain ⟨n, rfl⟩ := hx
  rw [fromDecimal_div hf, div_mul_fraction hf]

theorem isWhole_taxes {line : EntryLineInput} {t : ComputedEntryTax}
    (ht : t ∈ line.taxes fraction) : IsWhole fraction t.amount := by
  obtain ⟨e, -, rfl⟩ := List.mem_map.1 (List.mem_filter.1 ht).1
  exact isWhole_roundCurrency _

structure WholeEntry (fraction : ℕ) (e : ComputedEntry) : Prop where
  net : IsWhole fraction e.net
  taxes : ∀ t ∈ e.taxes, IsWhole fraction t.amount
  taxTotal : e.taxTotal = (e.taxes.map ComputedEntryTax.amount).sum

theorem wholeEntry_computeEntry (hf : 0 < fraction) (line : EntryLineInput) :
    WholeEntry fraction (computeEntry line fraction) where
  net := isWhole_roundCurrency _
  taxes _ ht := isWhole_taxes ht
  taxTotal := (isWhole_sum fun _ ht => isWhole_taxes ht).roundCurrency_eq hf

theorem WholeEntry.isWhole_taxTotal {e : ComputedEntry} (he : WholeEntry fraction e) :
    IsWhole fraction e.taxTotal := he.taxTotal ▸ isWhole_sum he.taxes

/-! ## The totals -/

/-- The amounts by account add up, with one amount for each account. -/
structure TaxesBy (fraction : ℕ) (taxMap : List ComputedEntryTax) (sum : ℚ) : Prop where
  accounts : (taxMap.map ComputedEntryTax.accountGuid).Nodup
  whole : ∀ m ∈ taxMap, IsWhole fraction m.amount
  sum_eq : (taxMap.map ComputedEntryTax.amount).sum = sum

theorem sum_changeAccount {taxMap : List ComputedEntryTax} {account : String} {add : ℚ}
    {change : ComputedEntryTax → ComputedEntryTax}
    (hchange : ∀ m ∈ taxMap, m.accountGuid = account → (change m).amount = m.amount + add)
    (hnodup : (taxMap.map ComputedEntryTax.accountGuid).Nodup)
    (hmem : account ∈ taxMap.map ComputedEntryTax.accountGuid) :
    ((taxMap.map fun m => if m.accountGuid = account then change m else m).map
      ComputedEntryTax.amount).sum = (taxMap.map ComputedEntryTax.amount).sum + add := by
  have hsplit : (taxMap.map fun m => if m.accountGuid = account then change m else m).map
      ComputedEntryTax.amount =
        taxMap.map fun m => m.amount + if m.accountGuid = account then add else 0 := by
    rw [List.map_map]
    refine List.map_congr_left fun m hm => ?_
    by_cases h : m.accountGuid = account
    · simp [h, hchange m hm h]
    · simp [h]
  rw [hsplit, List.sum_map_add]
  congr 1
  have hpick := ListSums.sum_ite_eq add hnodup hmem
  rw [List.map_map] at hpick
  exact hpick

theorem TaxesBy.add {taxMap : List ComputedEntryTax} {sum : ℚ} (hf : 0 < fraction)
    (h : TaxesBy fraction taxMap sum) {t : ComputedEntryTax} (ht : IsWhole fraction t.amount) :
    TaxesBy fraction (addTax fraction taxMap t) (sum + t.amount) := by
  have hadd (m : ComputedEntryTax) (hm : m ∈ taxMap) :
      roundCurrency (m.amount + t.amount) fraction = m.amount + t.amount :=
    ((h.whole m hm).add ht).roundCurrency_eq hf
  unfold addTax
  by_cases hmem : taxMap.any fun m => m.accountGuid = t.accountGuid
  · rw [if_pos hmem]
    have hin : t.accountGuid ∈ taxMap.map ComputedEntryTax.accountGuid := by
      obtain ⟨m, hm, heq⟩ := List.any_eq_true.1 hmem
      exact List.mem_map.2 ⟨m, hm, of_decide_eq_true heq⟩
    refine ⟨?_, fun m' hm' => ?_, ?_⟩
    · rw [List.map_map]
      convert h.accounts using 1
      refine List.map_congr_left fun m _ => ?_
      dsimp only [Function.comp]
      split <;> rfl
    · obtain ⟨m, hm, rfl⟩ := List.mem_map.1 hm'
      split
      · exact isWhole_roundCurrency _
      · exact h.whole m hm
    · rw [← h.sum_eq]
      exact sum_changeAccount (fun m hm _ => hadd m hm) h.accounts hin
  · rw [if_neg hmem]
    have hout : t.accountGuid ∉ taxMap.map ComputedEntryTax.accountGuid := by
      simpa [List.mem_map] using hmem
    have hzero : roundCurrency (0 + t.amount) fraction = t.amount := by
      rw [zero_add, ht.roundCurrency_eq hf]
    rw [hzero]
    refine ⟨?_, fun m hm => ?_, ?_⟩
    · rw [List.map_append, List.nodup_append]
      refine ⟨h.accounts, List.nodup_singleton _, fun a ha b hb => ?_⟩
      rw [List.map_singleton, List.mem_singleton] at hb
      rintro rfl
      exact hout (hb ▸ ha)
    · rcases List.mem_append.1 hm with hm | hm
      · exact h.whole m hm
      · rw [List.mem_singleton.1 hm]
        exact ht
    · rw [List.map_append, List.sum_append, h.sum_eq]
      simp

theorem TaxesBy.addAll {taxes taxMap : List ComputedEntryTax} {sum : ℚ} (hf : 0 < fraction)
    (h : TaxesBy fraction taxMap sum) (htaxes : ∀ t ∈ taxes, IsWhole fraction t.amount) :
    TaxesBy fraction (taxes.foldl (addTax fraction) taxMap)
      (sum + (taxes.map ComputedEntryTax.amount).sum) := by
  induction taxes generalizing taxMap sum with
  | nil => simpa using h
  | cons t taxes ih =>
    have hrest := ih (h.add hf (htaxes t List.mem_cons_self)) fun t ht =>
      htaxes t (List.mem_cons_of_mem _ ht)
    rwa [List.map_cons, List.sum_cons, ← add_assoc]

structure TotalsOf (fraction : ℕ) (entries : List ComputedEntry) (totals : InvoiceTotals) : Prop where
  total : totals.total = (entries.map fun e => e.net + e.taxTotal).sum
  taxTotal : totals.taxTotal = (entries.map ComputedEntry.taxTotal).sum
  taxByAccount : TaxesBy fraction totals.taxByAccount totals.taxTotal

theorem TotalsOf.add (hf : 0 < fraction) {entries : List ComputedEntry} {totals : InvoiceTotals}
    (h : TotalsOf fraction entries totals) (hentries : ∀ e ∈ entries, WholeEntry fraction e)
    {e : ComputedEntry} (he : WholeEntry fraction e) :
    TotalsOf fraction (entries ++ [e]) (addEntry fraction totals e) := by
  have htax : IsWhole fraction (totals.taxTotal + e.taxTotal) := by
    rw [h.taxTotal]
    exact (isWhole_sum fun e he => (hentries e he).isWhole_taxTotal).add he.isWhole_taxTotal
  have htotal : IsWhole fraction (totals.total + e.net + e.taxTotal) := by
    rw [h.total]
    exact ((isWhole_sum fun e he => (hentries e he).net.add (hentries e he).isWhole_taxTotal).add
      he.net).add he.isWhole_taxTotal
  refine ⟨?_, ?_, ?_⟩
  · show roundCurrency (totals.total + e.net + e.taxTotal) fraction = _
    rw [htotal.roundCurrency_eq hf, h.total, List.map_append, List.sum_append]
    simp [add_assoc]
  · show roundCurrency (totals.taxTotal + e.taxTotal) fraction = _
    rw [htax.roundCurrency_eq hf, h.taxTotal, List.map_append, List.sum_append]
    simp
  · show TaxesBy fraction (e.taxes.foldl (addTax fraction) totals.taxByAccount)
      (roundCurrency (totals.taxTotal + e.taxTotal) fraction)
    rw [htax.roundCurrency_eq hf, he.taxTotal]
    exact h.taxByAccount.addAll hf he.taxes

theorem totalsOf_computeInvoiceTotals (hf : 0 < fraction) (lines : List EntryLineInput) :
    TotalsOf fraction (lines.map fun l => computeEntry l fraction)
      (computeInvoiceTotals lines fraction) := by
  have hwhole : ∀ e ∈ lines.map fun l => computeEntry l fraction, WholeEntry fraction e := by
    intro e he
    obtain ⟨line, -, rfl⟩ := List.mem_map.1 he
    exact wholeEntry_computeEntry hf line
  have hfold (done rest : List ComputedEntry) (totals : InvoiceTotals)
      (hdone : TotalsOf fraction done totals) (hall : ∀ e ∈ done ++ rest, WholeEntry fraction e) :
      TotalsOf fraction (done ++ rest) (rest.foldl (addEntry fraction) totals) := by
    induction rest generalizing done totals with
    | nil => simpa using hdone
    | cons e rest ih =>
      have hnext := ih (done ++ [e]) (addEntry fraction totals e)
        (hdone.add hf (fun e he => hall e (List.mem_append_left _ he)) (hall e (by simp)))
        (by simpa using hall)
      simpa using hnext
  refine hfold [] _ _ ⟨?_, ?_, List.nodup_nil, nofun, ?_⟩ hwhole
  all_goals simp

theorem entries_computeInvoiceTotals (lines : List EntryLineInput) :
    (computeInvoiceTotals lines fraction).entries = lines.map fun l => computeEntry l fraction := by
  have hfold (rest : List ComputedEntry) (totals : InvoiceTotals) :
      (rest.foldl (addEntry fraction) totals).entries = totals.entries := by
    induction rest generalizing totals with
    | nil => rfl
    | cons e rest ih => exact ih _
  exact hfold _ _

variable {kind : InvoiceKind} {lines : List EntryLineInput} {postAccountGuid memo : String}

theorem sum_lineSplits (action : String) :
    (((lines.zip (lines.map fun l => computeEntry l fraction)).filterMap fun (line, computed) =>
      if computed.net = 0 then none
      else some (⟨line.accountGuid, -kind.sign * computed.net, line.description, action, false⟩ :
        PostingSplitSpec)).map PostingSplitSpec.value).sum =
      -kind.sign * ((lines.map fun l => computeEntry l fraction).map ComputedEntry.net).sum := by
  rw [← List.map_prod_left_eq_zip, List.filterMap_map, ListSums.sum_filterMap, List.map_map,
    ← List.sum_map_mul_left]
  congr 1
  refine List.map_congr_left fun line _ => ?_
  by_cases h : (computeEntry line fraction).net = 0 <;> simp [h]

theorem sum_taxSplits (taxMap : List ComputedEntryTax) (action : String) :
    ((taxMap.filterMap fun t =>
      if t.amount = 0 then none
      else some (⟨t.accountGuid, -kind.sign * t.amount, "", action, false⟩ :
        PostingSplitSpec)).map PostingSplitSpec.value).sum =
      -kind.sign * (taxMap.map ComputedEntryTax.amount).sum := by
  rw [ListSums.sum_filterMap, ← List.sum_map_mul_left]
  congr 1
  refine List.map_congr_left fun t _ => ?_
  by_cases h : t.amount = 0 <;> simp [h]

abbrev splitsOf (kind : InvoiceKind) (lines : List EntryLineInput) (fraction : ℕ)
    (postAccountGuid memo : String) : List PostingSplitSpec :=
  buildPostingSplits kind (computeInvoiceTotals lines fraction) lines postAccountGuid memo

theorem sum_splitsOf (hf : 0 < fraction) :
    ((splitsOf kind lines fraction postAccountGuid memo).map PostingSplitSpec.value).sum = 0 := by
  have h := totalsOf_computeInvoiceTotals hf lines
  unfold splitsOf buildPostingSplits
  dsimp only
  rw [entries_computeInvoiceTotals, List.map_append, List.map_cons, List.sum_append, List.sum_cons,
    sum_lineSplits, sum_taxSplits, h.taxByAccount.sum_eq, h.total, h.taxTotal, List.sum_map_add,
    List.map_map]
  simp only [Function.comp_def, List.map_map]
  ring

theorem isWhole_of_mem_splitsOf (hf : 0 < fraction) {s : PostingSplitSpec}
    (hs : s ∈ splitsOf kind lines fraction postAccountGuid memo) : IsWhole fraction s.value := by
  have h := totalsOf_computeInvoiceTotals hf lines
  have hentry (line : EntryLineInput) := wholeEntry_computeEntry hf line
  rcases List.mem_append.1 hs with hs | hs
  · rcases List.mem_cons.1 hs with rfl | hs
    · refine (IsWhole.sign_mul ?_ kind).1
      rw [h.total]
      refine isWhole_sum fun e he => ?_
      obtain ⟨line, -, rfl⟩ := List.mem_map.1 he
      exact (hentry line).net.add (hentry line).isWhole_taxTotal
    · obtain ⟨⟨line, computed⟩, hmem, hspec⟩ := List.mem_filterMap.1 hs
      rw [entries_computeInvoiceTotals] at hmem
      obtain ⟨l, -, rfl⟩ := List.mem_map.1 (List.of_mem_zip hmem).2
      dsimp only at hspec
      split at hspec
      · exact absurd hspec nofun
      · rw [← Option.some_inj.1 hspec]
        exact ((hentry l).net.sign_mul kind).2
  · obtain ⟨t, ht, hspec⟩ := List.mem_filterMap.1 hs
    split at hspec
    · exact absurd hspec nofun
    · rw [← Option.some_inj.1 hspec]
      exact ((h.taxByAccount.whole t ht).sign_mul kind).2

/-! ## The balance -/

/-- `computeInvoiceTotals` and `buildPostingSplits`, none when their values are not numbers. -/
def postingNumbers (kind : InvoiceKind) (lines : List EntryLineInput) (fraction : ℕ)
    (postAccountGuid memo : String) : Option (InvoiceTotals × List PostingSplitSpec) :=
  if ∀ line ∈ lines, line.undefinedPretax = false then
    some (computeInvoiceTotals lines fraction, splitsOf kind lines fraction postAccountGuid memo)
  else none

/-- The stored numerators sum to zero, the total is the sum of the nets and taxes of the lines, and
the taxes by account sum to the tax total. -/
structure PostingBalances (fraction : ℕ) (totals : InvoiceTotals) (splits : List PostingSplitSpec) :
    Prop where
  numerators : (splits.map fun s => (fromDecimal s.value fraction).num).sum = 0
  total : totals.total = (totals.entries.map fun e => e.net + e.taxTotal).sum
  taxes : (totals.taxByAccount.map ComputedEntryTax.amount).sum = totals.taxTotal
  accounts : (totals.taxByAccount.map ComputedEntryTax.accountGuid).Nodup

/-- Whole numbers of units that sum to zero are stored with numerators that sum to zero. -/
theorem sum_num_eq_zero (hf : 0 < fraction) {splits : List PostingSplitSpec}
    (hwhole : ∀ s ∈ splits, IsWhole fraction s.value)
    (hsum : (splits.map PostingSplitSpec.value).sum = 0) :
    (splits.map fun s => (fromDecimal s.value fraction).num).sum = 0 := by
  have hcast : ((splits.map fun s => (fromDecimal s.value fraction).num).sum : ℚ) =
      (splits.map PostingSplitSpec.value).sum * fraction := by
    rw [← List.sum_map_mul_right, Int.cast_list_sum, List.map_map]
    congr 1
    exact List.map_congr_left fun s hs => (hwhole s hs).num_fromDecimal hf
  rw [hsum, zero_mul] at hcast
  exact_mod_cast hcast

/-- A document of any kind and with any lines is posted in balance exactly when no line has a price
that includes taxes of minus one hundred percent. -/
theorem posting_balances_iff (hf : 0 < fraction) (kind : InvoiceKind) (lines : List EntryLineInput)
    (postAccountGuid memo : String) :
    (∃ totals splits, postingNumbers kind lines fraction postAccountGuid memo = some (totals, splits) ∧
      PostingBalances fraction totals splits) ↔ ∀ line ∈ lines, line.undefinedPretax = false := by
  unfold postingNumbers
  constructor
  · rintro ⟨totals, splits, hsome, -⟩
    by_contra hnot
    rw [if_neg hnot] at hsome
    exact absurd hsome nofun
  · intro hlines
    have h := totalsOf_computeInvoiceTotals hf lines
    refine ⟨_, _, if_pos hlines, ?_, ?_, h.taxByAccount.sum_eq, h.taxByAccount.accounts⟩
    · exact sum_num_eq_zero hf (fun s hs => isWhole_of_mem_splitsOf hf hs) (sum_splitsOf hf)
    · rw [entries_computeInvoiceTotals]
      exact h.total

def taxedLine (taxIncluded : Bool) (percent : ℚ) : EntryLineInput :=
  ⟨"income", "Consulting", 1, 100, 0, .value, .pretax, true, taxIncluded,
    some ⟨"tt1", [⟨"vat", .percent, percent⟩]⟩⟩

theorem posting_balances_taxedLine :
    0 < 100 ∧ ∃ totals splits,
      postingNumbers .invoice [taxedLine true 19] 100 "receivable" "" = some (totals, splits) ∧
        PostingBalances 100 totals splits :=
  ⟨by decide, (posting_balances_iff (by decide) _ _ _ _).2 (by decide +kernel)⟩

/-- A price that includes a tax of minus one hundred percent has no value before tax. -/
theorem posting_unbalanced_taxedLine :
    ¬∃ totals splits,
      postingNumbers .invoice [taxedLine true (-100)] 100 "receivable" "" = some (totals, splits) ∧
        PostingBalances 100 totals splits := by
  rintro ⟨totals, splits, hsome, -⟩
  have hnone : postingNumbers .invoice [taxedLine true (-100)] 100 "receivable" "" = none :=
    if_neg (by decide +kernel)
  rw [hnone] at hsome
  exact absurd hsome nofun

end Business
