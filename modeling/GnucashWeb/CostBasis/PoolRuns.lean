import GnucashWeb.CostBasis.Pool
import GnucashWeb.Lots.RunMoves

/-!
# Runs of a cost-basis pool

A pool after any purchases, transfers in and removals holds shares on one side only and as many as
went in less those that went out (`long_or_short_of_run`).  A removal scales the long side down
(`drainLong_scales`), which is why it leaves the cost of a covered share alone.
-/

namespace CostBasis

inductive PoolOp
  | purchase (shares cost : ℚ)
  | transferIn (traced : CostBasisResult)
  | removal (shares : ℚ) (proceeds : Option ℚ)

def PoolOp.Positive : PoolOp → Prop
  | .purchase shares _ => 0 < shares
  | .transferIn traced => 0 ≤ traced.coveredShares ∧ 0 ≤ traced.uncoveredShares ∧
      0 < traced.coveredShares + traced.uncoveredShares
  | .removal shares _ => 0 < shares

def PoolOp.signedShares : PoolOp → ℚ
  | .purchase shares _ => shares
  | .transferIn traced => traced.coveredShares + traced.uncoveredShares
  | .removal shares _ => -shares

variable (host : Lots.Host)

def PoolOp.apply (pool : CostBasisPool) : PoolOp → CostBasisPool
  | .purchase shares cost => addPurchaseToPool pool shares cost
  | .transferIn traced => addTracedTransferToPool pool traced
  | .removal shares proceeds => removeSharesFromPool host pool shares proceeds

def afterOps (ops : List PoolOp) : CostBasisPool :=
  ops.foldl (PoolOp.apply host) createCostBasisPool

/-- No count is negative, and a pool is long or short but not both. -/
structure PoolOk (pool : CostBasisPool) : Prop where
  covered : 0 ≤ pool.coveredShares
  uncovered : 0 ≤ pool.uncoveredShares
  short : 0 ≤ pool.shortShares
  oneSide : pool.shortShares = 0 ∨ pool.coveredShares + pool.uncoveredShares = 0

variable {pool : CostBasisPool}

theorem PoolOk.notShort (h : PoolOk pool) (hshort : ¬0 < pool.shortShares) : pool.shortShares = 0 :=
  le_antisymm (not_lt.1 hshort) h.short

theorem PoolOk.flat (h : PoolOk pool) (hshort : 0 < pool.shortShares) :
    pool.coveredShares = 0 ∧ pool.uncoveredShares = 0 := by
  have hlong := h.oneSide.resolve_left hshort.ne'
  have hcovered := h.covered
  have huncovered := h.uncovered
  exact ⟨by linarith, by linarith⟩

/-! ## Buying back a short position -/

@[simp] theorem retireShort_covered (coveredBack : ℚ) :
    (retireShort pool coveredBack).coveredShares = pool.coveredShares := by
  unfold retireShort
  split <;> rfl

@[simp] theorem retireShort_uncovered (coveredBack : ℚ) :
    (retireShort pool coveredBack).uncoveredShares = pool.uncoveredShares := by
  unfold retireShort
  split <;> rfl

theorem retireShort_short {coveredBack : ℚ} (h : coveredBack ≤ pool.shortShares) :
    (retireShort pool coveredBack).shortShares = pool.shortShares - coveredBack := by
  unfold retireShort
  split
  · rename_i hle
    exact le_antisymm (sub_nonneg.2 h) hle
  · rfl

/-- The shares bought back against a short position close it or are all that came in. -/
theorem min_eq_or (shares short : ℚ) :
    min shares short = shares ∧ shares ≤ short ∨ min shares short = short ∧ short < shares := by
  rcases le_or_gt shares short with h | h
  · exact Or.inl ⟨min_eq_left h, h⟩
  · exact Or.inr ⟨min_eq_right h.le, h⟩

/-! ## The operations -/

theorem addPurchaseToPool_ok (h : PoolOk pool) {shares : ℚ} (cost : ℚ) (hs : 0 < shares) :
    PoolOk (addPurchaseToPool pool shares cost) ∧
      poolNetShares (addPurchaseToPool pool shares cost) = poolNetShares pool + shares := by
  unfold addPurchaseToPool
  dsimp only
  by_cases hshort : 0 < pool.shortShares
  · rw [if_pos ⟨hshort, hs⟩]
    obtain ⟨hcovered, huncovered⟩ := h.flat hshort
    rcases min_eq_or shares pool.shortShares with ⟨hmin, hle⟩ | ⟨hmin, hlt⟩
    · rw [hmin, sub_self, if_pos le_rfl]
      have hleft := retireShort_short hle
      refine ⟨⟨?_, ?_, ?_, ?_⟩, ?_⟩
      · simp [hcovered]
      · simp [huncovered]
      · rw [hleft]
        linarith
      · exact Or.inr (by simp [hcovered, huncovered])
      · simp only [poolNetShares, retireShort_covered, retireShort_uncovered, hleft]
        ring
    · rw [hmin, if_neg (by linarith)]
      have hleft := retireShort_short (le_refl pool.shortShares)
      rw [sub_self] at hleft
      refine ⟨⟨?_, ?_, ?_, ?_⟩, ?_⟩
      · simp only [retireShort_covered, hcovered]
        linarith
      · simp [huncovered]
      · exact hleft.ge
      · exact Or.inl hleft
      · simp only [poolNetShares, retireShort_covered, retireShort_uncovered, hleft]
        ring
  · rw [if_neg fun hc => hshort hc.1]
    have hzero := h.notShort hshort
    refine ⟨⟨add_nonneg h.covered hs.le, h.uncovered, h.short, Or.inl hzero⟩, ?_⟩
    simp only [poolNetShares]
    ring

theorem addTracedTransferToPool_ok (h : PoolOk pool) {traced : CostBasisResult}
    (htraced : PoolOp.Positive (.transferIn traced)) :
    PoolOk (addTracedTransferToPool pool traced) ∧
      poolNetShares (addTracedTransferToPool pool traced) =
        poolNetShares pool + (traced.coveredShares + traced.uncoveredShares) := by
  obtain ⟨hc, hu, hin⟩ := htraced
  unfold addTracedTransferToPool
  dsimp only
  by_cases hshort : 0 < pool.shortShares
  · rw [if_pos ⟨hshort, hin⟩]
    obtain ⟨hcovered, huncovered⟩ := h.flat hshort
    rcases min_eq_or (traced.coveredShares + traced.uncoveredShares) pool.shortShares with
      ⟨hmin, hle⟩ | ⟨hmin, hlt⟩
    · rw [hmin, sub_self, zero_div, if_pos le_rfl]
      have hleft := @retireShort_short
        { pool with warnings := collectWarnings pool.warnings traced.warnings } _ hle
      refine ⟨⟨?_, ?_, ?_, ?_⟩, ?_⟩
      · simp [hcovered]
      · simp [huncovered]
      · rw [hleft]
        exact sub_nonneg.2 hle
      · exact Or.inr (by simp [hcovered, huncovered])
      · simp only [poolNetShares, retireShort_covered, retireShort_uncovered, hleft]
        ring
    · have hfraction : 0 < (traced.coveredShares + traced.uncoveredShares - pool.shortShares) /
          (traced.coveredShares + traced.uncoveredShares) := div_pos (by linarith) hin
      have hleft := @retireShort_short
        { pool with warnings := collectWarnings pool.warnings traced.warnings } _
          (le_refl pool.shortShares)
      rw [sub_self] at hleft
      rw [hmin, if_neg hfraction.not_ge]
      refine ⟨⟨?_, ?_, ?_, ?_⟩, ?_⟩
      · simp only [retireShort_covered, hcovered, zero_add]
        positivity
      · simp only [retireShort_uncovered, huncovered, zero_add]
        positivity
      · exact hleft.ge
      · exact Or.inl hleft
      · simp only [poolNetShares, retireShort_covered, retireShort_uncovered, hleft]
        rw [hcovered, huncovered, zero_add, zero_add, ← add_mul, mul_div_cancel₀ _ hin.ne']
        ring
  · rw [if_neg fun hc => hshort hc.1]
    have hzero := h.notShort hshort
    refine ⟨⟨?_, ?_, h.short, Or.inl hzero⟩, ?_⟩
    · exact add_nonneg h.covered (by linarith)
    · exact add_nonneg h.uncovered (by linarith)
    · simp only [poolNetShares, mul_one]
      ring

/-- The long side after shares are sold out of it. -/
def drainLong (pool : CostBasisPool) (sold : ℚ) : CostBasisPool :=
  let poolShares := pool.coveredShares + pool.uncoveredShares
  if 0 < poolShares then
    let fromCovered := sold * (pool.coveredShares / poolShares)
    { pool with
      basisOfCoveredShares := pool.basisOfCoveredShares - poolPerShareCost pool * fromCovered
      coveredShares := pool.coveredShares - fromCovered
      uncoveredShares := max 0 (pool.uncoveredShares - (sold - fromCovered)) }
  else pool

theorem removeSharesFromPool_long (h : PoolOk pool) (shares : ℚ) (proceeds : Option ℚ) :
    let sold := min shares (pool.coveredShares + pool.uncoveredShares)
    (removeSharesFromPool host pool shares proceeds).coveredShares =
        (drainLong pool sold).coveredShares ∧
      (removeSharesFromPool host pool shares proceeds).uncoveredShares =
        (drainLong pool sold).uncoveredShares ∧
      (removeSharesFromPool host pool shares proceeds).basisOfCoveredShares =
        (drainLong pool sold).basisOfCoveredShares ∧
      (removeSharesFromPool host pool shares proceeds).shortShares =
        pool.shortShares + (shares - sold) := by
  have hshort (sold : ℚ) : (drainLong pool sold).shortShares = pool.shortShares := by
    unfold drainLong
    dsimp only
    split <;> rfl
  have hmax : max 0 (pool.coveredShares + pool.uncoveredShares) =
      pool.coveredShares + pool.uncoveredShares := max_eq_right (add_nonneg h.covered h.uncovered)
  unfold removeSharesFromPool
  dsimp only
  rw [hmax]
  have hle := min_le_left shares (pool.coveredShares + pool.uncoveredShares)
  have hsold := hshort (min shares (pool.coveredShares + pool.uncoveredShares))
  by_cases hnone : shares - min shares (pool.coveredShares + pool.uncoveredShares) ≤ 0
  · rw [if_pos hnone]
    refine ⟨rfl, rfl, rfl, ?_⟩
    rw [le_antisymm hnone (sub_nonneg.2 hle), add_zero]
    exact hsold
  · rw [if_neg hnone]
    cases proceeds <;> exact ⟨rfl, rfl, rfl, congrArg (· + _) hsold⟩

theorem drainLong_scales (h : PoolOk pool) {sold : ℚ} (hs : 0 ≤ sold)
    (hsold : sold ≤ pool.coveredShares + pool.uncoveredShares) :
    ∃ f : ℚ, 0 ≤ f ∧
      (pool.coveredShares + pool.uncoveredShares) * f =
        pool.coveredShares + pool.uncoveredShares - sold ∧
      (drainLong pool sold).coveredShares = pool.coveredShares * f ∧
      (drainLong pool sold).uncoveredShares = pool.uncoveredShares * f ∧
      (0 < pool.coveredShares →
        (drainLong pool sold).basisOfCoveredShares = pool.basisOfCoveredShares * f) := by
  have hcovered := h.covered
  have huncovered := h.uncovered
  unfold drainLong
  dsimp only
  split
  · rename_i hpool
    have hf : 0 ≤ 1 - sold / (pool.coveredShares + pool.uncoveredShares) :=
      sub_nonneg.2 ((div_le_one hpool).2 hsold)
    have hcoveredLeft : pool.coveredShares -
        sold * (pool.coveredShares / (pool.coveredShares + pool.uncoveredShares)) =
          pool.coveredShares * (1 - sold / (pool.coveredShares + pool.uncoveredShares)) := by
      ring
    have huncoveredLeft : pool.uncoveredShares -
        (sold - sold * (pool.coveredShares / (pool.coveredShares + pool.uncoveredShares))) =
          pool.uncoveredShares * (1 - sold / (pool.coveredShares + pool.uncoveredShares)) := by
      field_simp
      ring
    refine ⟨1 - sold / (pool.coveredShares + pool.uncoveredShares), hf, ?_, hcoveredLeft, ?_, ?_⟩
    · field_simp
    · rw [huncoveredLeft, max_eq_right (mul_nonneg huncovered hf)]
    · intro hpos
      unfold poolPerShareCost
      rw [if_pos hpos]
      field_simp
  · rename_i hpool
    have hsold0 : sold = 0 := le_antisymm (hsold.trans (not_lt.1 hpool)) hs
    exact ⟨1, zero_le_one, by rw [hsold0, mul_one, sub_zero], (mul_one _).symm, (mul_one _).symm,
      fun _ => (mul_one _).symm⟩

theorem removeSharesFromPool_ok (h : PoolOk pool) {shares : ℚ} (proceeds : Option ℚ)
    (hs : 0 < shares) :
    PoolOk (removeSharesFromPool host pool shares proceeds) ∧
      poolNetShares (removeSharesFromPool host pool shares proceeds) =
        poolNetShares pool + -shares := by
  have hlong := add_nonneg h.covered h.uncovered
  obtain ⟨hcovered, huncovered, -, hshort⟩ := removeSharesFromPool_long host h shares proceeds
  have hle := min_le_left shares (pool.coveredShares + pool.uncoveredShares)
  obtain ⟨f, hf, hleft, hc, hu, -⟩ :=
    drainLong_scales h (le_min hs.le hlong) (min_le_right shares _)
  rw [hc] at hcovered
  rw [hu] at huncovered
  refine ⟨⟨?_, ?_, ?_, ?_⟩, ?_⟩
  · exact hcovered ▸ mul_nonneg h.covered hf
  · exact huncovered ▸ mul_nonneg h.uncovered hf
  · rw [hshort]
    exact add_nonneg h.short (sub_nonneg.2 hle)
  · rw [hcovered, huncovered, hshort, ← add_mul, hleft]
    rcases min_eq_or shares (pool.coveredShares + pool.uncoveredShares) with ⟨hmin, hall⟩ | ⟨hmin, -⟩
    · refine Or.inl ?_
      rw [hmin, sub_self, add_zero]
      exact h.oneSide.resolve_right (hs.trans_le hall).ne'
    · exact Or.inr (by rw [hmin, sub_self])
  · unfold poolNetShares
    rw [hcovered, huncovered, hshort, ← add_mul, hleft]
    ring

theorem perShareCost_removeSharesFromPool (h : PoolOk pool) {shares : ℚ} (proceeds : Option ℚ)
    (hs : 0 < shares)
    (hleft : 0 < (removeSharesFromPool host pool shares proceeds).coveredShares) :
    poolPerShareCost (removeSharesFromPool host pool shares proceeds) = poolPerShareCost pool := by
  obtain ⟨hcovered, -, hbasis, -⟩ := removeSharesFromPool_long host h shares proceeds
  obtain ⟨f, -, -, hc, -, hb⟩ := drainLong_scales h
    (le_min hs.le (add_nonneg h.covered h.uncovered)) (min_le_right shares _)
  have hpos := hleft
  rw [hcovered, hc] at hpos
  have hcov : 0 < pool.coveredShares := by
    refine h.covered.lt_of_ne fun hzero => ?_
    rw [← hzero, zero_mul] at hpos
    exact hpos.false
  have hf : f ≠ 0 := by
    rintro rfl
    rw [mul_zero] at hpos
    exact hpos.false
  unfold poolPerShareCost
  rw [if_pos hleft, if_pos hcov, hcovered, hbasis, hc, hb hcov, mul_div_mul_right _ _ hf]

/-! ## Runs -/

theorem apply_ok (h : PoolOk pool) {op : PoolOp} (hop : op.Positive) :
    PoolOk (op.apply host pool) ∧
      poolNetShares (op.apply host pool) = poolNetShares pool + op.signedShares := by
  cases op with
  | purchase shares cost => exact addPurchaseToPool_ok h cost hop
  | transferIn traced => exact addTracedTransferToPool_ok h hop
  | removal shares proceeds => exact removeSharesFromPool_ok host h proceeds hop

theorem foldl_ok {ops : List PoolOp} (h : PoolOk pool) (hops : ∀ op ∈ ops, op.Positive) :
    PoolOk (ops.foldl (PoolOp.apply host) pool) ∧
      poolNetShares (ops.foldl (PoolOp.apply host) pool) =
        poolNetShares pool + (ops.map PoolOp.signedShares).sum := by
  induction ops generalizing pool with
  | nil => exact ⟨h, (add_zero _).symm⟩
  | cons op ops ih =>
    obtain ⟨hop, hrest⟩ := List.forall_mem_cons.1 hops
    obtain ⟨hok, hnet⟩ := apply_ok host h hop
    obtain ⟨hrun, hsum⟩ := ih hok hrest
    refine ⟨hrun, ?_⟩
    rw [List.foldl_cons, hsum, hnet, List.map_cons, List.sum_cons, add_assoc]

theorem poolOk_create : PoolOk createCostBasisPool :=
  ⟨le_rfl, le_rfl, le_rfl, Or.inl rfl⟩

/-- A pool after any operations is long or short but not both, holds what went in less what went out
and no negative count, a draw accounts for every share asked for, and a removal leaves the cost of the
covered shares that remain. -/
theorem long_or_short_of_run (ops : List PoolOp) (hops : ∀ op ∈ ops, op.Positive) :
    let pool := afterOps host ops
    ¬(0 < pool.coveredShares + pool.uncoveredShares ∧ 0 < pool.shortShares) ∧
      poolNetShares pool = (ops.map PoolOp.signedShares).sum ∧
      (0 ≤ pool.coveredShares ∧ 0 ≤ pool.uncoveredShares ∧ 0 ≤ pool.shortShares) ∧
      (∀ sharesNeeded method,
        (drawFromPool host pool sharesNeeded method).coveredShares +
          (drawFromPool host pool sharesNeeded method).uncoveredShares = sharesNeeded) ∧
      ∀ shares proceeds, 0 < shares →
        0 < (removeSharesFromPool host pool shares proceeds).coveredShares →
          poolPerShareCost (removeSharesFromPool host pool shares proceeds) =
            poolPerShareCost pool := by
  obtain ⟨hok, hnet⟩ := foldl_ok host poolOk_create hops
  refine ⟨?_, ?_, ⟨hok.covered, hok.uncovered, hok.short⟩, ?_, ?_⟩
  · rintro ⟨hlong, hshort⟩
    exact hok.oneSide.elim hshort.ne' hlong.ne'
  · rw [show poolNetShares createCostBasisPool = 0 by decide +kernel, zero_add] at hnet
    exact hnet
  · exact fun sharesNeeded method => add_sub_cancel _ _
  · exact fun shares proceeds hs hleft => perShareCost_removeSharesFromPool host hok proceeds hs hleft

/-- Ten shares sold short, six bought back and eight transferred in, two of them without a basis. -/
def shortAndBack : List PoolOp :=
  [.removal 10 (some 500), .purchase 6 240, .transferIn ⟨6, 2, 300, 50, .average, none, []⟩,
    .removal 1 (some 60)]

theorem long_or_short_shortAndBack :
    (∀ op ∈ shortAndBack, op.Positive) ∧ poolNetShares (afterOps Lots.plainHost shortAndBack) = 3 := by
  have hops : ∀ op ∈ shortAndBack, op.Positive := by
    simp [shortAndBack, PoolOp.Positive]
    norm_num
  refine ⟨hops, ?_⟩
  rw [(long_or_short_of_run Lots.plainHost shortAndBack hops).2.1]
  decide +kernel

end CostBasis
