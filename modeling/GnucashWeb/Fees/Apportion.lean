import Mathlib

/-!
# Fee accounts and fee parts

Which expense accounts are fees, and how a fee is shared over weights.
-/

/-!
## Classifying an expense account by its path

The word patterns of `classifyFeeAccount` and the classification they give.
-/

namespace Fees

/-! ## Word patterns -/

/-- `\w`. -/
def isWordChar (c : Char) : Bool := c.isAlphanum || c = '_'

/-- `\b` between two neighbours, either of which may be missing. -/
def wordBoundary (before after : Option Char) : Bool :=
  before.any isWordChar != after.any isWordChar

/-- A pattern of a word boundary, one of some texts and, when it is closed, a word boundary. -/
structure WordPattern where
  texts : List String
  closed : Bool

/-- A text of the pattern begins here, after a given character. -/
def WordPattern.matchesAt (rx : WordPattern) (before : Option Char) (cs : List Char) : Bool :=
  wordBoundary before cs.head? && rx.texts.any fun text =>
    text.toList.isPrefixOf cs &&
      (!rx.closed || wordBoundary text.toList.getLast? (cs.drop text.toList.length).head?)

/-- `rx.test(path)`: the pattern matches somewhere, searched from the left. -/
def WordPattern.test (rx : WordPattern) : Option Char → List Char → Bool
  | before, [] => rx.matchesAt before []
  | before, c :: cs => rx.matchesAt before (c :: cs) || rx.test (some c) cs

/-- `toLowerCase` as the patterns can tell it apart: the ASCII letters and the two other letters
whose lower case has an ASCII letter; every further letter stays outside `\w`. -/
def toLowerCase (path : List Char) : List Char :=
  path.flatMap fun c =>
    if c.toNat = 0x130 then ['i', Char.ofNat 0x307]
    else if c.toNat = 0x212A then ['k']
    else [c.toLower]

def NOT_A_FEE : List WordPattern :=
  [⟨["interest"], true⟩, ⟨["accrued"], true⟩, ⟨["margin"], true⟩,
    ⟨["tax", "taxe", "taxs", "taxes"], true⟩, ⟨["withheld"], true⟩, ⟨["withholding"], true⟩,
    ⟨["penalt"], false⟩, ⟨["dividend", "dividends"], true⟩,
    ⟨["distribution", "distributions"], true⟩, ⟨["donation", "donations"], true⟩,
    ⟨["charit"], false⟩, ⟨["premium", "premiums"], true⟩, ⟨["loan", "loans"], true⟩]

def IS_A_FEE : List WordPattern :=
  [⟨["commission", "commissions"], true⟩, ⟨["fee", "fees"], true⟩, ⟨["brokerage"], true⟩]

inductive FeeClassification
  | fee | notFee | ambiguous | unrecognized
deriving DecidableEq, Repr

def classifyFeeAccount (accountPath : List Char) : FeeClassification :=
  let path := toLowerCase accountPath
  let denied := NOT_A_FEE.any fun rx => rx.test none path
  let allowed := IS_A_FEE.any fun rx => rx.test none path
  if denied && allowed then .ambiguous
  else if denied then .notFee
  else if allowed then .fee
  else .unrecognized

example : classifyFeeAccount "Expenses:Investments:Commissions".toList = .fee := by decide +kernel

example : classifyFeeAccount "Fees:Transaction Tax".toList = .ambiguous := by decide +kernel

end Fees

/-!
## Apportioning a fee in whole cents

`apportionCents` shares a number of cents over weights by the largest remainder.  The main result
is `sum_apportionCents`: the parts sum to the total, whatever the weights.
-/

namespace Fees

/-! ## Handing out units -/

/-- `parts[i] += 1`. -/
def bump (parts : List ℤ) (i : ℕ) : List ℤ := parts.modify i (· + 1)

@[simp] theorem length_bump (parts : List ℤ) (i : ℕ) : (bump parts i).length = parts.length :=
  List.length_modify ..

variable {parts : List ℤ} {magnitude : ℕ} {weights : List ℚ}

theorem sum_bump {i : ℕ} (h : i < parts.length) :
    (bump parts i).sum = parts.sum + 1 := by
  induction parts generalizing i with
  | nil => simp at h
  | cons x parts ih =>
    cases i with
    | zero =>
      simp only [bump, List.modify_zero_cons, List.sum_cons]
      omega
    | succ i =>
      have hi := ih (i := i) (by simpa using h)
      simp only [bump, List.modify_succ_cons, List.sum_cons] at hi ⊢
      omega

/-- The loop that gives the residual units to the parts in a given order, round and round. -/
def handOut (order : List ℕ) : ℕ → ℕ → List ℤ → List ℤ
  | 0, _, parts => parts
  | residual + 1, k, parts =>
    handOut order residual ((k + 1) % order.length) (bump parts (order.getD k 0))

theorem sum_handOut {order : List ℕ} {residual k : ℕ}
    (ho : ∀ i ∈ order, i < parts.length) (hk : k < order.length) :
    (handOut order residual k parts).sum = parts.sum + residual := by
  induction residual generalizing k parts with
  | zero => simp [handOut]
  | succ residual ih =>
    have hnext : (k + 1) % order.length < order.length := Nat.mod_lt _ (by omega)
    have hi : order.getD k 0 < parts.length := by
      rw [List.getD_eq_getElem?_getD, List.getElem?_eq_getElem hk]
      exact ho _ (List.getElem_mem hk)
    rw [handOut, ih (by simpa using ho) hnext, sum_bump hi]
    push_cast
    omega

/-- The loop that gives one unit to each of the leading parts. -/
def bumpLeading (n : ℕ) (parts : List ℤ) : List ℤ := (List.range n).foldl bump parts

theorem sum_foldl_bump {indices : List ℕ} (h : ∀ i ∈ indices, i < parts.length) :
    (indices.foldl bump parts).sum = parts.sum + indices.length := by
  induction indices generalizing parts with
  | nil => simp
  | cons i indices ih =>
    have hrest : ∀ j ∈ indices, j < (bump parts i).length := fun j hj => by
      simpa using h j (List.mem_cons_of_mem _ hj)
    rw [List.foldl_cons, ih hrest, sum_bump (h i List.mem_cons_self), List.length_cons]
    push_cast
    omega

@[simp] theorem length_handOut (order : List ℕ) (residual k : ℕ) (parts : List ℤ) :
    (handOut order residual k parts).length = parts.length := by
  induction residual generalizing k parts with
  | zero => rfl
  | succ residual ih => rw [handOut, ih, length_bump]

theorem length_foldl_bump (indices : List ℕ) (parts : List ℤ) :
    (indices.foldl bump parts).length = parts.length := by
  induction indices generalizing parts with
  | nil => rfl
  | cons i indices ih => rw [List.foldl_cons, ih, length_bump]

/-! ## The parts -/

/-- The positions of the shares, the largest fractional part first, ties by position. -/
def remainderOrder (exact : List ℚ) : List ℕ :=
  ((exact.map Int.fract).zipIdx.insertionSort
    fun a b => b.1 < a.1 ∨ (a.1 = b.1 ∧ a.2 ≤ b.2)).map Prod.snd

/-- The parts of a magnitude by weights that sum to more than zero. -/
def weightedParts (magnitude : ℕ) (weights : List ℚ) (weightSum : ℚ) : List ℤ :=
  let exact := weights.map fun w => magnitude * w / weightSum
  let parts := exact.map fun e => ⌊e⌋
  handOut (remainderOrder exact) (magnitude - parts.sum).toNat 0 parts

/-- The parts of a magnitude without usable weights: even, the residual to the leading parts. -/
def evenParts (magnitude length : ℕ) : List ℤ :=
  let base := magnitude / length
  bumpLeading (magnitude - base * length) (List.replicate length (base : ℤ))

def apportionCents (totalCents : ℤ) (weights : List ℚ) : List ℤ :=
  if weights = [] then []
  else
    let sign := if totalCents < 0 then -1 else 1
    let magnitude := totalCents.natAbs
    let parts :=
      if weights.sum ≤ 0 then evenParts magnitude weights.length
      else weightedParts magnitude weights weights.sum
    parts.map (· * sign)

theorem length_apportionCents (totalCents : ℤ) (weights : List ℚ) :
    (apportionCents totalCents weights).length = weights.length := by
  unfold apportionCents
  split
  · simp_all
  · dsimp only
    rw [List.length_map]
    split
    · rw [evenParts, bumpLeading, length_foldl_bump, List.length_replicate]
    · simp [weightedParts]

theorem perm_remainderOrder (exact : List ℚ) :
    (remainderOrder exact).Perm (List.range exact.length) := by
  have h := ((List.perm_insertionSort (fun a b : ℚ × ℕ => b.1 < a.1 ∨ (a.1 = b.1 ∧ a.2 ≤ b.2))
    (exact.map Int.fract).zipIdx)).map Prod.snd
  rwa [List.zipIdx_map_snd, List.length_map, ← List.range_eq_range'] at h

theorem sum_exact (h : 0 < weights.sum) :
    (weights.map fun w => magnitude * w / weights.sum).sum = magnitude := by
  simp only [div_eq_mul_inv]
  rw [List.sum_map_mul_right, List.sum_map_mul_left, List.map_id']
  field_simp

theorem sum_floor_le (l : List ℚ) : (((l.map fun e => ⌊e⌋).sum : ℤ) : ℚ) ≤ l.sum := by
  induction l with
  | nil => simp
  | cons e l ih =>
    rw [List.map_cons, List.sum_cons, List.sum_cons, Int.cast_add]
    exact add_le_add (Int.floor_le e) ih

theorem sum_weightedParts (h : 0 < weights.sum) :
    (weightedParts magnitude weights weights.sum).sum = magnitude := by
  have hne : weights ≠ [] := by
    rintro rfl
    simp at h
  have hlen : 0 < weights.length := List.length_pos_iff.2 hne
  have hfloor := sum_floor_le (weights.map fun w => magnitude * w / weights.sum)
  rw [sum_exact h] at hfloor
  have hle : ((weights.map fun w => magnitude * w / weights.sum).map fun e => ⌊e⌋).sum
      ≤ (magnitude : ℤ) := by exact_mod_cast hfloor
  have hperm := perm_remainderOrder (weights.map fun w => magnitude * w / weights.sum)
  unfold weightedParts
  rw [sum_handOut]
  · rw [Int.toNat_of_nonneg (by omega)]
    omega
  · intro i hi
    simpa using hperm.mem_iff.1 hi
  · rw [hperm.length_eq]
    simpa using hlen

theorem sum_evenParts {length : ℕ} (h : 0 < length) :
    (evenParts magnitude length).sum = magnitude := by
  have hmod := Nat.div_add_mod' magnitude length
  have hlt := Nat.mod_lt magnitude h
  unfold evenParts bumpLeading
  rw [sum_foldl_bump]
  · rw [List.sum_replicate, List.length_range, nsmul_eq_mul, Nat.cast_sub (by omega)]
    push_cast
    ring
  · intro i hi
    have := List.mem_range.1 hi
    rw [List.length_replicate]
    omega

theorem sum_apportionCents {totalCents : ℤ} (h : weights ≠ []) :
    (apportionCents totalCents weights).sum = totalCents := by
  have hlen : 0 < weights.length := List.length_pos_iff.2 h
  have hparts : (if weights.sum ≤ 0 then evenParts totalCents.natAbs weights.length
      else weightedParts totalCents.natAbs weights weights.sum).sum = totalCents.natAbs := by
    by_cases hw : weights.sum ≤ 0
    · rw [if_pos hw, sum_evenParts hlen]
    · rw [if_neg hw, sum_weightedParts (not_le.1 hw)]
  rw [apportionCents, if_neg h, List.sum_map_mul_right, List.map_id', hparts]
  split <;> omega

end Fees
