import GnucashWeb.Imports.Cells

/-!
# Settlement exports

The Stripe, Square, PayPal and Shopify parsers: each row of an export becomes a record whose amounts
are reconciled to the cent, and each record the splits of a transaction.  Descriptions of columns that
are missing, and the counts and warnings of the preview, are left out.  The records are
in cents and reconciled (`reconciled_parseSettlementCsv`).
-/

namespace Imports

open Ledger (WholeCents round2 round2_of_wholeCents wholeCents_round2)

inductive SettlementSource
  | stripe
  | square
  | paypal
  | shopify
deriving DecidableEq

inductive SettlementKind
  | sale
  | refund
  | feeOnly
  | payout
  | other
deriving DecidableEq

structure SettlementRecord where
  date : ℤ
  kind : SettlementKind
  gross : ℚ
  fee : ℚ
  /-- The change to the processor balance. -/
  net : ℚ
  reference : Cell
  description : Cell
  currency : Cell
  row : ℕ

inductive SettlementMessage
  | headerNotFound (source : SettlementSource)
  | unrecognizedDate (text : Cell)
  | unparseableAmount
  | unparseableTotal
  | doNotReconcile (date : ℤ) (gross fee net diff : ℚ)

structure SettlementParseError where
  row : ℕ
  message : SettlementMessage

structure SettlementParseResult where
  records : List SettlementRecord
  errors : List SettlementParseError

inductive SettlementRole
  | income
  | fees
  | clearing
  | bank
deriving DecidableEq

def SettlementSource.text : SettlementSource → String
  | .stripe => "stripe"
  | .square => "square"
  | .paypal => "paypal"
  | .shopify => "shopify"

/-- The stamp that a re-import is recognised by; none without a reference. -/
def dedupeStamp (source : SettlementSource) (reference : Cell) : Option Cell :=
  let ref := Text.trim reference
  if ref = [] then none else some (source.text.toList ++ ':' :: ref)

/-- A date cell, of a time stamp the part before the time. -/
def parseSettlementDate (raw : Cell) (locale : ImportLocale) : Option ℤ :=
  let s := Text.trim raw
  if s = [] then none
  else
    match parseLocaleDate s locale.dayFirst with
    | some day => some day
    | none =>
      let part := s.takeWhile fun c => !(c = 'T' || Text.isSpace c)
      if part ≠ [] ∧ part ≠ s then parseLocaleDate part locale.dayFirst else none

/-! ## Splits -/

def pushSplit (role : SettlementRole) (amount : ℚ) : List (SettlementRole × ℚ) :=
  if 5 / 1000 ≤ |round2 amount| then [(role, round2 amount)] else []

def buildSettlementSplits (r : SettlementRecord) : List (SettlementRole × ℚ) :=
  if r.kind = .payout then pushSplit .clearing r.net ++ pushSplit .bank (-r.net)
  else pushSplit .clearing r.net ++ pushSplit .fees r.fee ++ pushSplit .income (-r.gross)

/-! ## Records -/

/-- A fee on its own is exported as a signed amount: it is reshaped to a fee. -/
def reshaped (r : SettlementRecord) : SettlementRecord :=
  if r.kind = .feeOnly ∧ |r.fee| < 5 / 1000 then
    { r with
      gross := 0
      fee := round2 (-r.net) }
  else r

/-- The record, unless its amounts do not reconcile. -/
def pushChecked (r : SettlementRecord) : SettlementParseError ⊕ SettlementRecord :=
  let r := reshaped r
  let diff := round2 (r.net + r.fee - r.gross)
  if r.kind ≠ .payout ∧ diff ≠ 0 then .inl ⟨r.row, .doNotReconcile r.date r.gross r.fee r.net diff⟩
  else .inr r

/-- What a row comes to: nothing, an error or a record to check. -/
abbrev RowReader := ℕ → List Cell → Option (SettlementMessage ⊕ SettlementRecord)

/-- Every row after the header through a reader. -/
def readSettlementRows (reader : RowReader) (rows : List (ℕ × List Cell)) : SettlementParseResult :=
  let results := rows.filterMap fun (rowNum, row) =>
    (reader rowNum row).map fun result =>
      match result with
      | .inl message => Sum.inl ⟨rowNum, message⟩
      | .inr record => pushChecked record
  { records := results.filterMap Sum.getRight?
    errors := results.filterMap Sum.getLeft? }

section Parsers

variable (toLowerCase toUpperCase : List Char → List Char) (locale : ImportLocale)
  (cols : String → Option ℕ)

def amountAt (row : List Cell) (key : String) : Option ℚ :=
  parseLocaleNumber (cellAt row (cols key)) locale.decimal

def orElseText (a b : Cell) : Cell := if a = [] then b else a

def containsAny (words : List String) (t : Cell) : Bool := words.any fun w => w.toList <:+: t

def STRIPE_COLUMNS : List ColumnSpec :=
  [⟨"date", ["created (utc)", "created", "available on (utc)", "available on", "date"], true⟩,
    ⟨"type", ["type"], true⟩, ⟨"amount", ["amount"], true⟩, ⟨"fee", ["fee", "fees"], false⟩,
    ⟨"net", ["net"], false⟩, ⟨"currency", ["currency"], false⟩,
    ⟨"description", ["description"], false⟩,
    ⟨"id", ["id", "balance transaction id", "source"], false⟩]

def stripeKind (type : Cell) : SettlementKind :=
  let t := toLowerCase (Text.trim type)
  if containsAny ["refund"] t then .refund
  else if containsAny ["payout"] t ∨ t = "transfer".toList then .payout
  else if containsAny ["charge", "payment"] t then .sale
  else if containsAny ["fee"] t then .feeOnly
  else .other

def stripeRow : RowReader := fun rowNum row =>
  let dateRaw := cellAt row (cols "date")
  match parseSettlementDate dateRaw locale with
  | none => some (.inl (.unrecognizedDate dateRaw))
  | some date =>
  match amountAt locale cols row "amount", amountAt locale cols row "fee",
    amountAt locale cols row "net" with
  | some amount, some fee, some netCell =>
    let kind := stripeKind toLowerCase (cellAt row (cols "type"))
    let net := if cellAt row (cols "net") ≠ [] then netCell else round2 (amount - fee)
    some (.inr
      { date := date
        kind := kind
        gross := if kind = .payout then 0 else amount
        fee := if kind = .payout then 0 else fee
        net := if kind = .payout then (if cellAt row (cols "net") ≠ [] then net else amount)
          else net
        reference := cellAt row (cols "id")
        description := orElseText (cellAt row (cols "description")) (cellAt row (cols "type"))
        currency := toUpperCase (cellAt row (cols "currency"))
        row := rowNum })
  | _, _, _ => some (.inl .unparseableAmount)

def SQUARE_COLUMNS : List ColumnSpec :=
  [⟨"date", ["date"], true⟩, ⟨"grossSales", ["gross sales"], true⟩,
    ⟨"discounts", ["discounts"], false⟩, ⟨"netSales", ["net sales"], false⟩,
    ⟨"tax", ["tax"], false⟩, ⟨"tip", ["tip", "tips"], false⟩,
    ⟨"fees", ["fees", "square fees"], false⟩,
    ⟨"netTotal", ["net total", "total collected"], false⟩,
    ⟨"id", ["transaction id", "payment id"], false⟩,
    ⟨"description", ["description", "details"], false⟩]

def squareKind (gross fee : ℚ) : SettlementKind :=
  if gross < 0 then .refund else if gross = 0 ∧ fee ≠ 0 then .feeOnly else .sale

def squareRow : RowReader := fun rowNum row =>
  let dateRaw := cellAt row (cols "date")
  match parseSettlementDate dateRaw locale with
  | none => some (.inl (.unrecognizedDate dateRaw))
  | some date =>
  match amountAt locale cols row "grossSales", amountAt locale cols row "discounts",
    amountAt locale cols row "netSales", amountAt locale cols row "tax",
    amountAt locale cols row "tip", amountAt locale cols row "fees",
    amountAt locale cols row "netTotal" with
  | some grossSales, some discounts, some netSales, some tax, some tip, some feesCell,
      some netTotal =>
      let base := if (cols "netSales").isSome then netSales else round2 (grossSales + discounts)
      let gross := round2 (base + tax + tip)
      let fee := round2 (-feesCell)
      some (.inr
        { date := date
          kind := squareKind gross fee
          gross := gross
          fee := fee
          net := if cellAt row (cols "netTotal") ≠ [] then netTotal else round2 (gross - fee)
          reference := cellAt row (cols "id")
          description := orElseText (cellAt row (cols "description")) "Square sale".toList
          currency := []
          row := rowNum })
  | _, _, _, _, _, _, _ => some (.inl .unparseableAmount)

def PAYPAL_COLUMNS : List ColumnSpec :=
  [⟨"date", ["date"], true⟩, ⟨"name", ["name"], false⟩, ⟨"type", ["type"], true⟩,
    ⟨"status", ["status"], true⟩, ⟨"currency", ["currency"], false⟩, ⟨"gross", ["gross"], true⟩,
    ⟨"fee", ["fee", "fees"], false⟩, ⟨"net", ["net"], false⟩,
    ⟨"id", ["transaction id", "txn id"], false⟩]

def paypalKind (type : Cell) (gross : ℚ) : SettlementKind :=
  let t := toLowerCase (Text.trim type)
  if containsAny ["refund", "reversal", "chargeback"] t then .refund
  else if containsAny ["withdrawal", "transfer to bank"] t ∨
      (containsAny ["bank deposit"] t ∧ containsAny ["pp"] t) ∨ t = "payout".toList then .payout
  else if containsAny ["fee"] t then .feeOnly
  else if containsAny ["hold", "release"] t then .other
  else if gross ≠ 0 then .sale else .other

/-- Rows that are not completed are skipped. -/
def paypalRow : RowReader := fun rowNum row =>
  if toLowerCase (Text.trim (cellAt row (cols "status"))) ≠ "completed".toList then none
  else
  let dateRaw := cellAt row (cols "date")
  match parseSettlementDate dateRaw locale with
  | none => some (.inl (.unrecognizedDate dateRaw))
  | some date =>
  match amountAt locale cols row "gross", amountAt locale cols row "fee",
    amountAt locale cols row "net" with
  | some gross, some feeCell, some netCell =>
    let fee := round2 (-feeCell)
    let kind := paypalKind toLowerCase (cellAt row (cols "type")) gross
    some (.inr
      { date := date
        kind := kind
        gross := if kind = .payout then 0 else gross
        fee := if kind = .payout then 0 else fee
        net := if cellAt row (cols "net") ≠ [] then netCell else round2 (gross - fee)
        reference := cellAt row (cols "id")
        description := orElseText (cellAt row (cols "name")) (cellAt row (cols "type"))
        currency := toUpperCase (cellAt row (cols "currency"))
        row := rowNum })
  | _, _, _ => some (.inl .unparseableAmount)

/-! ### Shopify -/

def SHOPIFY_TXN_COLUMNS : List ColumnSpec :=
  [⟨"date", ["transaction date", "payout date", "date"], true⟩, ⟨"type", ["type"], true⟩,
    ⟨"order", ["order", "order id"], false⟩, ⟨"amount", ["amount"], true⟩,
    ⟨"fee", ["fee", "fees"], false⟩, ⟨"net", ["net"], false⟩,
    ⟨"payoutId", ["payout id"], false⟩, ⟨"currency", ["currency"], false⟩]

def SHOPIFY_SUMMARY_COLUMNS : List ColumnSpec :=
  [⟨"date", ["payout date", "date"], true⟩, ⟨"total", ["total", "total amount"], true⟩,
    ⟨"status", ["status", "payout status"], false⟩, ⟨"payoutId", ["payout id"], false⟩]

def shopifyKind (type : Cell) : SettlementKind :=
  let t := toLowerCase (Text.trim type)
  if containsAny ["refund"] t then .refund
  else if containsAny ["payout"] t then .payout
  else if containsAny ["charge"] t then .sale
  else if containsAny ["fee"] t then .feeOnly
  else .other

def SettlementKind.text : SettlementKind → String
  | .sale => "sale"
  | .refund => "refund"
  | .feeOnly => "fee_only"
  | .payout => "payout"
  | .other => "other"

def shopifyRow : RowReader := fun rowNum row =>
  let dateRaw := cellAt row (cols "date")
  match parseSettlementDate dateRaw locale with
  | none => some (.inl (.unrecognizedDate dateRaw))
  | some date =>
  match amountAt locale cols row "amount", amountAt locale cols row "fee",
    amountAt locale cols row "net" with
  | some amount, some feeCell, some netCell =>
    let typeRaw := cellAt row (cols "type")
    let kind := shopifyKind toLowerCase typeRaw
    let order := cellAt row (cols "order")
    let shown := orElseText typeRaw kind.text.toList
    some (.inr
      { date := date
        kind := kind
        gross := if kind = .payout then 0 else amount
        fee := if kind = .payout then 0 else feeCell
        net := if cellAt row (cols "net") ≠ [] then netCell else round2 (amount - feeCell)
        reference := if order ≠ [] then order ++ '/' :: kind.text.toList
          else if kind = .payout then cellAt row (cols "payoutId") else []
        description := if order ≠ [] then "Shopify ".toList ++ shown ++ ' ' :: order
          else "Shopify ".toList ++ shown
        currency := toUpperCase (cellAt row (cols "currency"))
        row := rowNum })
  | _, _, _ => some (.inl .unparseableAmount)

def shopifySummaryRow : RowReader := fun rowNum row =>
  let dateRaw := cellAt row (cols "date")
  match parseSettlementDate dateRaw locale with
  | none => some (.inl (.unrecognizedDate dateRaw))
  | some date =>
  match amountAt locale cols row "total" with
  | none => some (.inl .unparseableTotal)
  | some total =>
    let status := cellAt row (cols "status")
    some (.inr
      { date := date
        kind := .payout
        gross := 0
        fee := 0
        net := round2 (-total)
        reference := cellAt row (cols "payoutId")
        description := "Shopify payout".toList ++
          (if status = [] then [] else " (".toList ++ status ++ [')'])
        currency := []
        row := rowNum })

end Parsers

section Dispatcher

variable (toLowerCase toUpperCase : List Char → List Char) (locale : ImportLocale)

/-- The rows under a header through a reader; none without the header. -/
def parseUnder (specs : List ColumnSpec) (reader : (String → Option ℕ) → RowReader)
    (rows : List (List Cell)) : Option SettlementParseResult :=
  (detectHeaderRow toLowerCase rows specs).map fun (headerIdx, cols) =>
    readSettlementRows (reader cols) (dataRows rows headerIdx)

def parseSettlementCsv (source : SettlementSource) (content : List Char) : SettlementParseResult :=
  let rows := splitCsvRows content
  let found :=
    match source with
    | .stripe => parseUnder toLowerCase STRIPE_COLUMNS (stripeRow toLowerCase toUpperCase locale) rows
    | .square => parseUnder toLowerCase SQUARE_COLUMNS (squareRow locale) rows
    | .paypal => parseUnder toLowerCase PAYPAL_COLUMNS (paypalRow toLowerCase toUpperCase locale) rows
    | .shopify =>
      parseUnder toLowerCase SHOPIFY_TXN_COLUMNS (shopifyRow toLowerCase toUpperCase locale) rows <|>
        parseUnder toLowerCase SHOPIFY_SUMMARY_COLUMNS (shopifySummaryRow locale) rows
  found.getD ⟨[], [⟨1, .headerNotFound source⟩]⟩

end Dispatcher

/-! ## Records are in cents -/

def SettlementRecord.InCents (r : SettlementRecord) : Prop :=
  WholeCents r.gross ∧ WholeCents r.fee ∧ WholeCents r.net

def ReadsCents (reader : RowReader) : Prop :=
  ∀ rowNum row r, reader rowNum row = some (.inr r) → r.InCents

theorem wholeCents_ite {p : Prop} [Decidable p] {a b : ℚ} (ha : WholeCents a) (hb : WholeCents b) :
    WholeCents (if p then a else b) := by
  split
  · exact ha
  · exact hb

section Readers

variable (toLowerCase toUpperCase : List Char → List Char) (locale : ImportLocale)
  (cols : String → Option ℕ)

theorem wholeCents_amountAt {row : List Cell} {key : String} {amount : ℚ}
    (h : amountAt locale cols row key = some amount) : WholeCents amount :=
  wholeCents_parseLocaleNumber h

theorem readsCents_stripeRow : ReadsCents (stripeRow toLowerCase toUpperCase locale cols) := by
  intro rowNum row r h
  unfold stripeRow at h
  simp only at h
  split at h
  · exact absurd h (by simp)
  · split at h
    · rename_i amount fee netCell hamount hfee hnet
      have hamount := wholeCents_amountAt locale cols hamount
      have hnet := wholeCents_amountAt locale cols hnet
      have hnet' := wholeCents_ite (p := cellAt row (cols "net") ≠ []) hnet
        (wholeCents_round2 (amount - fee))
      obtain rfl := Sum.inr.inj (Option.some.inj h)
      exact ⟨wholeCents_ite Ledger.wholeCents_zero hamount,
        wholeCents_ite Ledger.wholeCents_zero (wholeCents_amountAt locale cols hfee),
        wholeCents_ite (wholeCents_ite hnet' hamount) hnet'⟩
    · exact absurd h (by simp)

theorem readsCents_squareRow : ReadsCents (squareRow locale cols) := by
  intro rowNum row r h
  unfold squareRow at h
  simp only at h
  split at h
  · exact absurd h (by simp)
  · split at h
    · rename_i hnetTotal
      obtain rfl := Sum.inr.inj (Option.some.inj h)
      exact ⟨wholeCents_round2 _, wholeCents_round2 _,
        wholeCents_ite (wholeCents_amountAt locale cols hnetTotal) (wholeCents_round2 _)⟩
    · exact absurd h (by simp)

theorem readsCents_paypalRow : ReadsCents (paypalRow toLowerCase toUpperCase locale cols) := by
  intro rowNum row r h
  unfold paypalRow at h
  simp only at h
  split at h
  · exact absurd h (by simp)
  · split at h
    · exact absurd h (by simp)
    · split at h
      · rename_i hgross hfee hnet
        obtain rfl := Sum.inr.inj (Option.some.inj h)
        exact ⟨wholeCents_ite Ledger.wholeCents_zero (wholeCents_amountAt locale cols hgross),
          wholeCents_ite Ledger.wholeCents_zero (wholeCents_round2 _),
          wholeCents_ite (wholeCents_amountAt locale cols hnet) (wholeCents_round2 _)⟩
      · exact absurd h (by simp)

theorem readsCents_shopifyRow : ReadsCents (shopifyRow toLowerCase toUpperCase locale cols) := by
  intro rowNum row r h
  unfold shopifyRow at h
  simp only at h
  split at h
  · exact absurd h (by simp)
  · split at h
    · rename_i hamount hfee hnet
      obtain rfl := Sum.inr.inj (Option.some.inj h)
      exact ⟨wholeCents_ite Ledger.wholeCents_zero (wholeCents_amountAt locale cols hamount),
        wholeCents_ite Ledger.wholeCents_zero (wholeCents_amountAt locale cols hfee),
        wholeCents_ite (wholeCents_amountAt locale cols hnet) (wholeCents_round2 _)⟩
    · exact absurd h (by simp)

theorem readsCents_shopifySummaryRow : ReadsCents (shopifySummaryRow locale cols) := by
  intro rowNum row r h
  unfold shopifySummaryRow at h
  simp only at h
  split at h
  · exact absurd h (by simp)
  · split at h
    · exact absurd h (by simp)
    · obtain rfl := Sum.inr.inj (Option.some.inj h)
      exact ⟨Ledger.wholeCents_zero, Ledger.wholeCents_zero, wholeCents_round2 _⟩

end Readers

/-! ## Records are reconciled -/

/-- In cents, and but for a payout the net and the fee are the gross. -/
def SettlementRecord.Reconciled (r : SettlementRecord) : Prop :=
  r.InCents ∧ (r.kind ≠ .payout → r.net + r.fee = r.gross)

variable {r : SettlementRecord}

theorem inCents_reshaped (h : r.InCents) : (reshaped r).InCents := by
  unfold reshaped
  split
  · exact ⟨Ledger.wholeCents_zero, wholeCents_round2 _, h.2.2⟩
  · exact h

theorem reconciled_pushChecked {s : SettlementRecord} (hr : r.InCents)
    (h : pushChecked r = .inr s) : s.Reconciled := by
  unfold pushChecked at h
  simp only at h
  split at h
  · exact absurd h (by simp)
  · rename_i hok
    obtain rfl := Sum.inr.inj h
    have hcents := inCents_reshaped hr
    refine ⟨hcents, fun hkind => ?_⟩
    have hdiff : WholeCents ((reshaped r).net + (reshaped r).fee - (reshaped r).gross) := by
      rw [sub_eq_add_neg]
      exact (hcents.2.2.add hcents.2.1).add hcents.1.neg
    rw [round2_of_wholeCents hdiff] at hok
    by_contra hne
    exact hok ⟨hkind, sub_ne_zero.2 hne⟩

theorem reconciled_readSettlementRows {reader : RowReader} (hreader : ReadsCents reader)
    {rows : List (ℕ × List Cell)}
    (hr : r ∈ (readSettlementRows reader rows).records) : r.Reconciled := by
  simp only [readSettlementRows, List.mem_filterMap] at hr
  obtain ⟨result, ⟨⟨rowNum, row⟩, -, hresult⟩, hright⟩ := hr
  obtain ⟨read, hread, rfl⟩ := Option.map_eq_some_iff.1 hresult
  cases read with
  | inl message => exact absurd hright (by simp)
  | inr record =>
    refine reconciled_pushChecked (hreader rowNum row record hread) ?_
    exact Sum.getRight?_eq_some_iff.1 hright

theorem reconciled_parseUnder {toLowerCase : List Char → List Char} {specs : List ColumnSpec}
    {reader : (String → Option ℕ) → RowReader} {rows : List (List Cell)}
    {result : SettlementParseResult} (hreader : ∀ cols, ReadsCents (reader cols))
    (hresult : parseUnder toLowerCase specs reader rows = some result)
    (hr : r ∈ result.records) : r.Reconciled := by
  obtain ⟨⟨headerIdx, cols⟩, -, rfl⟩ := Option.map_eq_some_iff.1 hresult
  exact reconciled_readSettlementRows (hreader cols) hr

theorem reconciled_parseSettlementCsv {toLowerCase toUpperCase : List Char → List Char}
    {locale : ImportLocale} {source : SettlementSource} {content : List Char}
    (hr : r ∈ (parseSettlementCsv toLowerCase toUpperCase locale source content).records) :
    r.Reconciled := by
  unfold parseSettlementCsv at hr
  simp only at hr
  cases source with
  | stripe =>
    cases hfound : parseUnder toLowerCase STRIPE_COLUMNS
      (stripeRow toLowerCase toUpperCase locale) (splitCsvRows content) with
    | none => simp [hfound] at hr
    | some result =>
      rw [hfound] at hr
      exact reconciled_parseUnder (readsCents_stripeRow _ _ _) hfound hr
  | square =>
    cases hfound : parseUnder toLowerCase SQUARE_COLUMNS (squareRow locale)
      (splitCsvRows content) with
    | none => simp [hfound] at hr
    | some result =>
      rw [hfound] at hr
      exact reconciled_parseUnder (readsCents_squareRow _) hfound hr
  | paypal =>
    cases hfound : parseUnder toLowerCase PAYPAL_COLUMNS
      (paypalRow toLowerCase toUpperCase locale) (splitCsvRows content) with
    | none => simp [hfound] at hr
    | some result =>
      rw [hfound] at hr
      exact reconciled_parseUnder (readsCents_paypalRow _ _ _) hfound hr
  | shopify =>
    cases hfound : parseUnder toLowerCase SHOPIFY_TXN_COLUMNS
      (shopifyRow toLowerCase toUpperCase locale) (splitCsvRows content) with
    | some result =>
      rw [hfound] at hr
      exact reconciled_parseUnder (readsCents_shopifyRow _ _ _) hfound hr
    | none =>
      cases hsummary : parseUnder toLowerCase SHOPIFY_SUMMARY_COLUMNS (shopifySummaryRow locale)
        (splitCsvRows content) with
      | none => simp [hfound, hsummary] at hr
      | some result =>
        simp only [hfound, hsummary] at hr
        exact reconciled_parseUnder (readsCents_shopifySummaryRow _) hsummary hr

end Imports
