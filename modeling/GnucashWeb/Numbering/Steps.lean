import GnucashWeb.Numbering.Invariant

/-!
# The steps keep the invariant

One lemma for each database step of a call.  Creating a frame keeps the invariant as long as the
book has none (`OneFrame`).
-/

open RowLocks Versions

namespace Numbering

variable {hashtext : String → ℤ} {books : List String} {s s' : Counters} {k : ℕ}

variable {phase : Phase} {i j : ℕ} {v : Version SlotRow} {found : Option ℕ}

theorem Inv.step (h : Inv hashtext books s) (hslots : SlotsOk hashtext books s')
    (hkeeps : ∀ j, j ≠ k → Keeps hashtext books s s' j)
    (hphase : s'.phase = Function.update s.phase k phase)
    (hins : ∀ i j, s'.InsertedBy j i → (j = k ∧ phase.Inserting) ∨ (j ≠ k ∧ s.InsertedBy j i))
    (hok : PhaseOk hashtext books s' k phase)
    (hlt : ∀ c n, phase = .committed c n → ∀ j, j ≠ k → ∀ m, s.phase j = .committed c m → m < n) :
    Inv hashtext books s' := by
  have hself : s'.phase k = phase := by rw [hphase, Function.update_self]
  have hother : ∀ j, j ≠ k → s'.phase j = s.phase j := fun j hj => by
    rw [hphase, Function.update_of_ne hj]
  refine ⟨hslots, fun i j hi => ?_, fun j => ?_, fun i j c m n hij hi hj => ?_⟩
  · rcases hins i j hi with ⟨rfl, hin⟩ | ⟨hj, hi⟩
    · rwa [hself]
    · rw [hother j hj]
      exact h.inserting i j hi
  · by_cases hj : j = k
    · subst hj
      rwa [hself]
    · rw [hother j hj]
      exact (h.phases j).keeps h.slots (hkeeps j hj)
  · by_cases hik : i = k
    · subst hik
      rw [hself] at hi
      rw [hother j (Ne.symm hij)] at hj
      have hnm := hlt c m hi j (Ne.symm hij) n hj
      omega
    · rw [hother i hik] at hi
      by_cases hjk : j = k
      · subst hjk
        rw [hself] at hj
        have hmn := hlt c n hj i hik m hi
        omega
      · rw [hother j hjk] at hj
        exact h.distinct i j c m n hij hi hj

/-! ## Steps that only read or lock -/

/-- The slots stay in order when no shape changes and what a transaction has inserted becomes
committed as a whole. -/
theorem SlotsOk.of_shapes_eq (h : SlotsOk hashtext books s) (hshapes : s'.shapes = s.shapes)
    (hserial : s'.serial = s.serial) (hkeep : ∀ i, s.Committed i → s'.Committed i)
    (hback : ∀ j i, s'.InsertedBy j i → s.InsertedBy j i)
    (hforth : ∀ j i, s.InsertedBy j i → s'.InsertedBy j i ∨ s'.Committed i)
    (hnew : ∀ i, s'.Committed i →
      s.Committed i ∨ ∃ j, s.InsertedBy j i ∧ ∀ i, s.InsertedBy j i → s'.Committed i)
    (hlocks : ∀ j i key, s'.InsertedBy j i → s.locks key = some j → s'.locks key = some j)
    (hraised : ∀ i v k w, s'.slots i = some v → v.update = some (k, w) →
      v.insertedBy = none ∧ w = { v.row with int64Val := some (v.row.value + 1) }) :
    SlotsOk hashtext books s' where
  bounded i v hv := by
    have hrow := Counters.shapes_of_slots hv
    rw [hshapes] at hrow
    obtain ⟨w, hw, -⟩ := Counters.slots_of_shapes hrow
    rw [hserial]
    exact h.bounded i w hw
  frameGuid := hshapes ▸ h.frameGuid
  frameUnique := hshapes ▸ h.frameUnique
  frameApart := hshapes ▸ h.frameApart
  slotUnique := hshapes ▸ h.slotUnique
  childFrame c hb i j guid hf hslot := by
    rw [hshapes] at hf hslot
    have hold := h.childFrame c hb i j guid hf hslot
    constructor
    · intro hi
      rcases hnew i hi with hi | ⟨k, hi, hall⟩
      · exact hkeep j (hold.1 hi)
      · exact (hold.2 k hi).elim (hkeep j) (hall j)
    · intro k hi
      rcases hold.2 k (hback k i hi) with hj | hj
      · exact .inl (hkeep j hj)
      · exact (hforth k j hj).symm
  childInserted c hb i k hi hk := by
    rw [hshapes] at hi ⊢
    have hold := h.childInserted c hb i k hi (hback k i hk)
    exact ⟨hlocks k i _ hk hold.1, hold.2⟩
  flatCommitted c hb i hi := by
    rw [hshapes] at hi
    exact hkeep i (h.flatCommitted c hb i hi)
  raised := hraised

theorem SlotsOk.of_slots_eq (h : SlotsOk hashtext books s) (hslots : s'.slots = s.slots)
    (hserial : s'.serial = s.serial)
    (hlocks : ∀ j key, s.locks key = some j → s'.locks key = some j) :
    SlotsOk hashtext books s' := by
  have hcommitted : ∀ i, s'.Committed i ↔ s.Committed i := fun i => by
    unfold Counters.Committed
    rw [hslots]
  have hinserted : ∀ j i, s'.InsertedBy j i ↔ s.InsertedBy j i := fun j i => by
    unfold Counters.InsertedBy
    rw [hslots]
  refine h.of_shapes_eq ?_ hserial (fun i => (hcommitted i).2) (fun j i => (hinserted j i).1)
    (fun j i hi => .inl ((hinserted j i).2 hi)) (fun i hi => .inl ((hcommitted i).1 hi))
    (fun j i key _ => hlocks j key) (hslots ▸ h.raised)
  unfold Counters.shapes
  rw [hslots]

theorem Keeps.of_slots_eq (hslots : s'.slots = s.slots)
    (hlocks : ∀ j key, s.locks key = some j → s'.locks key = some j) (j : ℕ) :
    Keeps hashtext books s s' j := by
  have hshapes : s'.shapes = s.shapes := by
    unfold Counters.shapes
    rw [hslots]
  refine ⟨hlocks j, fun i v hv _ => ⟨v, hslots ▸ hv, Grown.refl j v⟩, ?_, ?_⟩
  · rw [hshapes]
    exact fun _ _ _ => id
  · rw [hshapes]
    exact fun _ _ h _ => h

theorem Inv.phaseOnly (h : Inv hashtext books s) (hslots : s'.slots = s.slots)
    (hserial : s'.serial = s.serial)
    (hlocks : ∀ j key, s.locks key = some j → s'.locks key = some j)
    (hphase : s'.phase = Function.update s.phase k phase) (hnot : ¬ (s.phase k).Inserting)
    (hok : PhaseOk hashtext books s' k phase) (hnc : ∀ c n, phase ≠ .committed c n) :
    Inv hashtext books s' := by
  refine h.step (h.slots.of_slots_eq hslots hserial hlocks)
    (fun j _ => Keeps.of_slots_eq hslots hlocks j) hphase (fun i j hi => ?_) hok
    (fun c n hc => absurd hc (hnc c n))
  have hold : s.InsertedBy j i := by
    unfold Counters.InsertedBy at hi ⊢
    rwa [hslots] at hi
  refine .inr ⟨fun hjk => hnot ?_, hold⟩
  rw [← hjk]
  exact h.inserting i j hold

theorem Inv.setPhase (h : Inv hashtext books s) (hnot : ¬ (s.phase k).Inserting)
    (hok : PhaseOk hashtext books s k phase) (hnc : ∀ c n, phase ≠ .committed c n) :
    Inv hashtext books (s.setPhase k phase) := by
  have hkeeps : Keeps hashtext books s (s.setPhase k phase) k :=
    Keeps.of_slots_eq (by rfl) (by exact fun _ _ => id) k
  exact h.phaseOnly rfl rfl (fun _ _ => id) rfl hnot (hok.keeps h.slots hkeeps) hnc

theorem inv_call {c : Call} (h : Inv hashtext books s) (hstep : callNext books k c s = some s') :
    Inv hashtext books s' := by
  unfold callNext at hstep
  split at hstep
  case h_1 hphase =>
    obtain ⟨hb, hs⟩ := Option.ite_none_right_eq_some.1 hstep
    cases hs
    exact h.setPhase (by simp [hphase, Phase.Inserting]) ⟨hb, by simp⟩ (by simp)
  case h_2 => cases hstep

/-! ## What a query tells -/

section Queries

variable (h : Inv hashtext books s)

include h

theorem shape_seenBy (hv : s.slots i = some v) :
    (v.seenBy k).shape = v.row.shape := by
  unfold Version.seenBy
  split
  case h_1 j w hu =>
    split
    · rw [(h.slots.raised i v j w hv hu).2]
      rfl
    · rfl
  case h_2 => rfl

theorem committed_of_answer (hnot : ¬ (s.phase k).Inserting) {p : SlotRow → Prop}
    (ha : Answers s.slots s.serial k p (some i)) :
    s.Committed i ∧ ∃ v, s.slots i = some v ∧ p (v.seenBy k) := by
  obtain ⟨v, hv, hvis, hp⟩ := ha
  rcases hvis with hins | hins
  · exact ⟨⟨v, hv, hins⟩, v, hv, hp⟩
  · exact absurd (h.inserting i k ⟨v, hv, hins⟩) hnot

theorem not_of_no_answer {p : SlotRow → Prop} (ha : Answers s.slots s.serial k p none)
    (hc : s.Committed i) : ∀ v, s.slots i = some v → ¬ p (v.seenBy k) := by
  obtain ⟨w, hw, hins⟩ := hc
  intro v hv
  rw [hw, Option.some.injEq] at hv
  subst hv
  exact ha i (h.slots.bounded i w hw) w hw (.inl hins)

end Queries

theorem inv_findFrame (h : Inv hashtext books s)
    (hstep : findFrameNext k found s = some s') : Inv hashtext books s' := by
  unfold findFrameNext at hstep
  split at hstep
  case h_2 => cases hstep
  case h_1 c locked hphase =>
  have hnot : ¬ (s.phase k).Inserting := by simp [hphase, Phase.Inserting]
  obtain ⟨hb, hl⟩ : PhaseOk hashtext books s k (.atFrame c locked) := hphase ▸ h.phases k
  obtain ⟨ha, hstep⟩ := Option.ite_none_right_eq_some.1 hstep
  cases found with
  | some i =>
    obtain ⟨hc, v, hv, hframe⟩ := committed_of_answer h hnot ha
    have hf : Frame s.shapes c.bookGuid i v.row.guidVal := by
      refine ⟨v.row.shape, Counters.shapes_of_slots hv, ?_, rfl⟩
      rw [← shape_seenBy h hv]
      exact hframe
    obtain ⟨guid, hguid, hne, -⟩ := h.slots.frameGuid _ hb _ _ hf
    have hof : frameGuidOf s (some i) = some guid := by
      simp [frameGuidOf, hv, hguid, hne]
    rw [hof] at hstep
    cases hstep
    rw [hguid] at hf
    exact h.setPhase hnot ⟨hb, hl, i, hc, hf⟩ (by simp)
  | none =>
    cases hstep
    refine h.setPhase hnot ⟨hb, hl, ?_, by simp⟩ (by simp)
    -- a slot in a frame of an open transaction excludes one on the book
    rintro ⟨m, hm⟩ i ⟨j, guid, hf, hi⟩
    obtain ⟨row, hrow, hcounter⟩ := hi
    rcases Counters.committed_or_inserted hrow with hci | ⟨k', hk'⟩
    · have hcj := (h.slots.childFrame c hb i j guid hf ⟨row, hrow, hcounter⟩).1 hci
      obtain ⟨frame, hframe, his, -⟩ := hf
      obtain ⟨v, hv, rfl⟩ := Counters.slots_of_shapes hframe
      refine not_of_no_answer h ha hcj v hv ?_
      rw [← isFrame_shape, shape_seenBy h hv]
      exact his
    · exact (h.slots.childInserted c hb i k' ⟨j, guid, hf, row, hrow, hcounter⟩ hk').2 m hm

theorem inv_findChild (h : Inv hashtext books s)
    (hstep : findChildNext k found s = some s') : Inv hashtext books s' := by
  unfold findChildNext at hstep
  split at hstep
  case h_2 => cases hstep
  case h_1 c locked guid hphase =>
  have hnot : ¬ (s.phase k).Inserting := by simp [hphase, Phase.Inserting]
  obtain ⟨hb, hl, hframe⟩ : PhaseOk hashtext books s k (.atChild c locked guid) :=
    hphase ▸ h.phases k
  obtain ⟨ha, hstep⟩ := Option.ite_none_right_eq_some.1 hstep
  cases found with
  | some i =>
    obtain ⟨hc, v, hv, hcounter⟩ := committed_of_answer h hnot ha
    cases hstep
    have hslot : Slot s.shapes guid c.counterName i := by
      refine ⟨v.row.shape, Counters.shapes_of_slots hv, ?_⟩
      rw [← shape_seenBy h hv]
      exact hcounter
    obtain ⟨j, -, hf⟩ := hframe
    exact h.setPhase hnot ⟨hb, hc, .inl ⟨j, guid, hf, hslot⟩⟩ (by simp)
  | none =>
    cases hstep
    -- every committed slot of the counter is in this frame, and none was found
    have hnone : ∀ i, Child s.shapes c i → ¬ s.Committed i := by
      rintro i ⟨j, guid', hf', row, hrow, hcounter⟩ hc
      obtain ⟨p, -, hf⟩ := hframe
      obtain rfl := h.slots.frameGuid_eq hb hf hf'
      obtain ⟨v, hv, rfl⟩ := Counters.slots_of_shapes hrow
      refine not_of_no_answer h ha hc v hv ?_
      rw [← isCounter_shape, shape_seenBy h hv]
      exact hcounter
    have hopen : ∀ i, Child s.shapes c i → ∃ k', s.InsertedBy k' i := by
      intro i hi
      obtain ⟨_, _, _, row, hrow, _⟩ := id hi
      exact (Counters.committed_or_inserted hrow).resolve_left (hnone i hi)
    refine h.setPhase hnot ⟨hb, hl, ?_, fun hlocked guid' hguid' => ?_⟩ (by simp)
    · rintro ⟨m, hm⟩ i hi
      obtain ⟨k', hk'⟩ := hopen i hi
      exact (h.slots.childInserted c hb i k' hi hk').2 m hm
    · cases hguid'
      refine ⟨hframe, fun i hi => ?_⟩
      obtain ⟨k', hk'⟩ := hopen i hi
      have hholds := (h.slots.childInserted c hb i k' hi hk').1
      have hk : k' = k := by
        have hmine := hl hlocked
        unfold Holds at hholds hmine
        rwa [hmine, Option.some.injEq, eq_comm] at hholds
      exact hnot (h.inserting i k (hk ▸ hk'))

theorem inv_findFlat (h : Inv hashtext books s)
    (hstep : findFlatNext k found s = some s') : Inv hashtext books s' := by
  unfold findFlatNext at hstep
  split at hstep
  case h_2 => cases hstep
  case h_1 c locked frameGuid hphase =>
  have hnot : ¬ (s.phase k).Inserting := by simp [hphase, Phase.Inserting]
  obtain ⟨hb, hl, hflat, hchild⟩ : PhaseOk hashtext books s k (.atFlat c locked frameGuid) :=
    hphase ▸ h.phases k
  obtain ⟨ha, hstep⟩ := Option.ite_none_right_eq_some.1 hstep
  cases found with
  | some i =>
    obtain ⟨hc, v, hv, hcounter⟩ := committed_of_answer h hnot ha
    cases hstep
    have hslot : Flat s.shapes c i := by
      refine ⟨v.row.shape, Counters.shapes_of_slots hv, ?_⟩
      rw [← shape_seenBy h hv]
      exact hcounter
    exact h.setPhase hnot ⟨hb, hc, .inr ⟨hslot, hflat ⟨i, hslot⟩⟩⟩ (by simp)
  | none =>
    have hno : ∀ i, ¬ Flat s.shapes c i := by
      intro i hi
      have hc := h.slots.flatCommitted c hb i hi
      obtain ⟨row, hrow, hcounter⟩ := hi
      obtain ⟨v, hv, rfl⟩ := Counters.slots_of_shapes hrow
      refine not_of_no_answer h ha hc v hv ?_
      rw [← isCounter_shape, shape_seenBy h hv]
      exact hcounter
    cases locked with
    | false =>
      cases hstep
      exact h.setPhase hnot hb (by simp)
    | true =>
      cases hstep
      exact h.setPhase hnot ⟨hb, hl rfl, hno, hchild rfl⟩ (by simp)

theorem inv_lock (h : Inv hashtext books s) (hstep : lockNext hashtext k s = some s') :
    Inv hashtext books s' := by
  unfold lockNext at hstep
  split at hstep
  case h_2 => cases hstep
  case h_1 c hphase =>
  have hnot : ¬ (s.phase k).Inserting := by simp [hphase, Phase.Inserting]
  have hb : PhaseOk hashtext books s k (.atLock c) := hphase ▸ h.phases k
  obtain ⟨hfree, hs⟩ := Option.ite_none_right_eq_some.1 hstep
  cases hs
  refine h.phaseOnly rfl rfl (fun j key hj => ?_) rfl hnot ⟨hb, fun _ => acquire_self⟩ (by simp)
  exact acquire_of_held (.inl hfree) hj

theorem inv_seed {existingIds : List (List Char)} (h : Inv hashtext books s)
    (hstep : seedNext k existingIds s = some s') : Inv hashtext books s' := by
  unfold seedNext at hstep
  split at hstep
  case h_3 => cases hstep
  case h_1 c guid hphase =>
    obtain ⟨hb, hl, hflat, hchild⟩ : PhaseOk hashtext books s k (.atSeed c (some guid)) :=
      hphase ▸ h.phases k
    obtain ⟨⟨j, hj, hf⟩, hno⟩ := hchild guid rfl
    cases hstep
    exact h.setPhase (by simp [hphase, Phase.Inserting]) ⟨hb, hl, hflat, hno, j, .inl hj, hf⟩
      (by simp)
  case h_2 c hphase =>
    obtain ⟨hb, hl, hflat, -⟩ : PhaseOk hashtext books s k (.atSeed c none) := hphase ▸ h.phases k
    cases hstep
    exact h.setPhase (by simp [hphase, Phase.Inserting]) ⟨hb, hl, hflat⟩ (by simp)

theorem inv_increment (h : Inv hashtext books s) (hstep : incrementNext k s = some s') :
    Inv hashtext books s' := by
  unfold incrementNext at hstep
  split at hstep
  case h_2 => cases hstep
  case h_1 c i hphase =>
  have hnot : ¬ (s.phase k).Inserting := by simp [hphase, Phase.Inserting]
  obtain ⟨hb, ⟨v, hv, hins⟩, hcounter⟩ : PhaseOk hashtext books s k (.atIncrement c i) :=
    hphase ▸ h.phases k
  rw [hv, Option.bind_some] at hstep
  obtain ⟨⟨-, hfree, -⟩, hs⟩ := Option.ite_none_right_eq_some.1 hstep
  rw [Option.some.injEq] at hs
  have hself : s'.slots i =
      some { v with update := some (k, { v.row with int64Val := some (v.row.value + 1) }) } := by
    rw [← hs]
    exact Function.update_self ..
  have hother : ∀ j, j ≠ i → s'.slots j = s.slots j := fun j hj => by
    rw [← hs]
    exact Function.update_of_ne hj ..
  have hlocks : s'.locks = s.locks := by rw [← hs]
  have hserial : s'.serial = s.serial := by rw [← hs]
  have hphase' : s'.phase = Function.update s.phase k (.returned c (v.row.value + 1)) := by
    rw [← hs]
  clear hs hstep
  -- every row is there as before, but for the update of this one
  have hrow : ∀ j w, s.slots j = some w → ∃ w', s'.slots j = some w' ∧ w'.row = w.row ∧
      w'.insertedBy = w.insertedBy ∧ (j ≠ i → w'.update = w.update) := by
    intro j w hw
    by_cases hj : j = i
    · subst hj
      rw [hv, Option.some.injEq] at hw
      subst hw
      exact ⟨_, hself, rfl, rfl, fun hne => absurd rfl hne⟩
    · exact ⟨w, (hother j hj).trans hw, rfl, rfl, fun _ => rfl⟩
  have hrow' : ∀ j w', s'.slots j = some w' → ∃ w, s.slots j = some w ∧ w'.row = w.row ∧
      w'.insertedBy = w.insertedBy := by
    intro j w' hw'
    by_cases hj : j = i
    · subst hj
      rw [hself, Option.some.injEq] at hw'
      exact ⟨v, hv, hw' ▸ rfl, hw' ▸ rfl⟩
    · exact ⟨w', (hother j hj) ▸ hw', rfl, rfl⟩
  have hshapes : s'.shapes = s.shapes := by
    funext j
    unfold Counters.shapes
    by_cases hj : j = i
    · subst hj
      rw [hself, hv]
      rfl
    · rw [hother j hj]
  have hcommitted : ∀ j, s'.Committed j ↔ s.Committed j := fun j => by
    constructor
    · rintro ⟨w', hw', hnone⟩
      obtain ⟨w, hw, -, heq⟩ := hrow' j w' hw'
      exact ⟨w, hw, heq ▸ hnone⟩
    · rintro ⟨w, hw, hnone⟩
      obtain ⟨w', hw', -, heq, -⟩ := hrow j w hw
      exact ⟨w', hw', heq.trans hnone⟩
  have hinserted : ∀ m j, s'.InsertedBy m j ↔ s.InsertedBy m j := fun m j => by
    constructor
    · rintro ⟨w', hw', hsome⟩
      obtain ⟨w, hw, -, heq⟩ := hrow' j w' hw'
      exact ⟨w, hw, heq ▸ hsome⟩
    · rintro ⟨w, hw, hsome⟩
      obtain ⟨w', hw', -, heq, -⟩ := hrow j w hw
      exact ⟨w', hw', heq.trans hsome⟩
  refine h.step ?_ (fun j hjk => ⟨?_, fun m w hw hvis => ?_, ?_, ?_⟩) hphase' ?_ ?_ (by simp)
  · refine h.slots.of_shapes_eq hshapes hserial (fun j => (hcommitted j).2)
      (fun m j => (hinserted m j).1) (fun m j hj => .inl ((hinserted m j).2 hj))
      (fun j hj => .inl ((hcommitted j).1 hj)) (fun m j key _ => hlocks ▸ id) ?_
    intro j w m u hw hu
    by_cases hj : j = i
    · subst hj
      rw [hself, Option.some.injEq] at hw
      subst hw
      rw [Option.some.injEq, Prod.mk.injEq] at hu
      exact ⟨hins, hu.2.symm⟩
    · rw [hother j hj] at hw
      exact h.slots.raised j w m u hw hu
  · exact fun key => hlocks ▸ id
  · obtain ⟨w', hw', heq, hinsEq, hupd⟩ := hrow m w hw
    refine ⟨w', hw', by rw [heq], hinsEq, Int.le_of_eq (by rw [heq]), fun u hu => ?_,
      fun _ => by rw [heq]⟩
    have hmi : m ≠ i := by
      rintro rfl
      rw [hv, Option.some.injEq] at hw
      rw [← hw, hfree] at hu
      cases hu
    exact (hupd hmi).trans hu
  · rw [hshapes]
    exact fun _ _ _ => id
  · rw [hshapes]
    exact fun _ _ hno _ => hno
  · intro j m hj
    have hold := (hinserted m j).1 hj
    refine .inr ⟨fun hmk => hnot ?_, hold⟩
    rw [← hmk]
    exact h.inserting j m hold
  · rw [← hshapes] at hcounter
    exact ⟨hb, i, _, hself, hcounter, .inl ⟨hins, _, rfl, rfl⟩⟩

/-! ## The end of a transaction -/

theorem shape_commit (h : Inv hashtext books s)
    (hv : s.slots i = some v) : (v.commit k).row.shape = v.row.shape :=
  shape_seenBy h hv

theorem value_commit (h : Inv hashtext books s) (hv : s.slots i = some v) :
    v.row.value ≤ (v.commit k).row.value ∧
      ((∀ w, v.update ≠ some (k, w)) → (v.commit k).row = v.row) := by
  unfold Version.commit Version.seenBy
  cases hu : v.update with
  | none => exact ⟨Int.le_refl _, fun _ => rfl⟩
  | some u =>
    obtain ⟨j, w⟩ := u
    by_cases hj : j = k
    · subst hj
      rw [(h.slots.raised i v j w hv hu).2]
      refine ⟨?_, fun hne => absurd rfl (hne _)⟩
      simp only [if_true, SlotRow.value, Option.getD_some]
      omega
    · simp [hj]

theorem release_of_ne {s : Counters} {key : ℤ} (hj : j ≠ k)
    (h : s.locks key = some j) : release s.locks k key = some j :=
  release_of_held h hj

theorem inv_commit (h : Inv hashtext books s) (hstep : commitNext k s = some s') :
    Inv hashtext books s' := by
  unfold commitNext at hstep
  split at hstep
  case h_2 => cases hstep
  case h_1 c value hphase =>
  obtain ⟨hb, i, v, hv, hcounter, hcase⟩ : PhaseOk hashtext books s k (.returned c value) :=
    hphase ▸ h.phases k
  rw [Option.some.injEq] at hstep
  have hslots : ∀ j, s'.slots j = (s.slots j).map (Version.commit k) := fun j => by rw [← hstep]
  have hlocks : s'.locks = release s.locks k := by rw [← hstep]
  have hserial : s'.serial = s.serial := by rw [← hstep]
  have hphase' : s'.phase = Function.update s.phase k (.committed c value) := by rw [← hstep]
  clear hstep
  have hshapes : s'.shapes = s.shapes := by
    funext j
    unfold Counters.shapes
    rw [hslots, Option.map_map]
    refine Option.map_congr fun w hw => ?_
    exact shape_commit h hw
  have hkeep : ∀ j, s.Committed j → s'.Committed j := by
    rintro j ⟨w, hw, hins⟩
    exact ⟨w.commit k, by rw [hslots, hw]; rfl, insertedBy_commit_of_none hins⟩
  have hown : ∀ j, s.InsertedBy k j → s'.Committed j := by
    rintro j ⟨w, hw, hins⟩
    refine ⟨w.commit k, by rw [hslots, hw]; rfl, ?_⟩
    rw [Version.commit, hins]
    exact if_pos rfl
  have hback : ∀ m j, s'.InsertedBy m j → m ≠ k ∧ s.InsertedBy m j := by
    rintro m j ⟨w', hw', hins⟩
    rw [hslots] at hw'
    obtain ⟨w, hw, rfl⟩ := Option.map_eq_some_iff.1 hw'
    simp only [Version.commit] at hins
    split at hins
    · cases hins
    · rename_i hne
      exact ⟨fun hmk => hne (hmk ▸ hins), w, hw, hins⟩
  have hforth : ∀ m j, m ≠ k → s.InsertedBy m j → s'.InsertedBy m j := by
    rintro m j hm ⟨w, hw, hins⟩
    refine ⟨w.commit k, by rw [hslots, hw]; rfl, ?_⟩
    simp only [Version.commit, hins]
    exact if_neg (by simpa using hm)
  have hnew : ∀ j, s'.Committed j → s.Committed j ∨ s.InsertedBy k j := by
    rintro j ⟨w', hw', hins⟩
    rw [hslots] at hw'
    obtain ⟨w, hw, rfl⟩ := Option.map_eq_some_iff.1 hw'
    simp only [Version.commit] at hins
    split at hins
    · exact .inr ⟨w, hw, ‹_›⟩
    · exact .inl ⟨w, hw, hins⟩
  refine h.step ?_ (fun j hjk => ⟨?_, fun m w hw hvis => ?_, ?_, ?_⟩) hphase'
    (fun m j hj => .inr ⟨(hback j m hj).1, (hback j m hj).2⟩) ?_ ?_
  · refine h.slots.of_shapes_eq hshapes hserial hkeep (fun m j hj => (hback m j hj).2)
      (fun m j hj => ?_) (fun j hj => (hnew j hj).imp_right fun hj => ⟨k, hj, hown⟩)
      (fun m j key hj hl => ?_) ?_
    · by_cases hm : m = k
      · exact .inr (hown j (hm ▸ hj))
      · exact .inl (hforth m j hm hj)
    · rw [hlocks]
      exact release_of_ne (hback m j hj).1 hl
    · intro j w' m u hw' hu
      rw [hslots] at hw'
      obtain ⟨w, hw, rfl⟩ := Option.map_eq_some_iff.1 hw'
      have hu' : w.update = some (m, u) ∧ m ≠ k := by
        simpa [Version.commit, Option.filter_eq_some_iff] using hu
      have hraised := h.slots.raised j w m u hw hu'.1
      have hrow : (w.commit k).row = w.row := by
        refine (value_commit h hw).2 fun x hx => hu'.2 ?_
        rw [hu'.1, Option.some.injEq, Prod.mk.injEq] at hx
        exact hx.1
      rw [hrow]
      exact ⟨insertedBy_commit_of_none hraised.1, hraised.2⟩
  · intro key hl
    rw [hlocks]
    exact release_of_ne hjk hl
  · have hne : w.insertedBy ≠ some k := by
      rcases hvis with hvis | hvis <;> rw [hvis] <;> simp [hjk]
    refine ⟨w.commit k, by rw [hslots, hw]; rfl, shape_commit h hw, if_neg hne,
      (value_commit h hw).1, fun u hu => ?_, fun hins => ?_⟩
    · simp [Version.commit, hu, hjk]
    · rw [(value_commit h hw).2 fun u hu => ?_]
      rw [(h.slots.raised m w k u hw hu).1] at hins
      cases hins
  · rw [hshapes]
    exact fun _ _ _ => id
  · rw [hshapes]
    exact fun _ _ hno _ => hno
  · refine ⟨hb, i, v.commit k, by rw [hslots, hv]; rfl, hshapes ▸ hcounter, ?_⟩
    rcases hcase with ⟨hins, w, hw, hvalue⟩ | ⟨hins, hvalue, -⟩
    · refine ⟨insertedBy_commit_of_none hins, Int.le_of_eq ?_⟩
      simp [Version.commit, Version.seenBy, hw, hvalue]
    · refine ⟨?_, hvalue ▸ (value_commit h hv).1⟩
      simp [Version.commit, hins]
  · intro c' n hc j hjk m hm
    obtain ⟨rfl, rfl⟩ : c = c' ∧ value = n := by simpa using hc
    obtain ⟨-, i', v', hv', hcounter', hins', hle⟩ :
        PhaseOk hashtext books s j (.committed c m) := hm ▸ h.phases j
    obtain rfl := h.slots.counterAt_unique hb hcounter hcounter'
    rw [hv, Option.some.injEq] at hv'
    subst hv'
    rcases hcase with ⟨-, w, hw, hvalue⟩ | ⟨hins, -⟩
    · rw [(h.slots.raised i v k w hv hw).2] at hvalue
      simp only [SlotRow.value, Option.getD_some] at hvalue hle
      omega
    · rw [hins] at hins'
      cases hins'

theorem slots_abort (hstep : abortNext k s = some s') :
    (∀ j, s'.slots j = (s.slots j).bind (Version.rollback k)) ∧ s'.locks = release s.locks k ∧
      s'.serial = s.serial ∧ s'.phase = Function.update s.phase k .idle := by
  unfold abortNext at hstep
  split at hstep
  case h_1 => cases hstep
  case h_2 => cases hstep
  case h_3 =>
    rw [Option.some.injEq] at hstep
    rw [← hstep]
    exact ⟨fun _ => rfl, rfl, rfl, rfl⟩

theorem inv_abort (h : Inv hashtext books s) (hstep : abortNext k s = some s') :
    Inv hashtext books s' := by
  obtain ⟨hslots, hlocks, hserial, hphase'⟩ := slots_abort hstep
  have hrow : ∀ j w, s.slots j = some w → w.insertedBy ≠ some k →
      s'.slots j = some { w with update := w.update.filter (·.1 ≠ k) } := by
    intro j w hw hne
    rw [hslots, hw]
    exact rollback_eq_some.2 ⟨hne, rfl⟩
  have hrow' : ∀ j w', s'.slots j = some w' → ∃ w, s.slots j = some w ∧ w.insertedBy ≠ some k ∧
      w' = { w with update := w.update.filter (·.1 ≠ k) } := by
    intro j w' hw'
    rw [hslots] at hw'
    obtain ⟨w, hw, hroll⟩ := Option.bind_eq_some_iff.1 hw'
    exact ⟨w, hw, rollback_eq_some.1 hroll⟩
  have hshape : ∀ j row, s'.shapes j = some row → s.shapes j = some row := by
    intro j row hj
    obtain ⟨w', hw', rfl⟩ := Counters.slots_of_shapes hj
    obtain ⟨w, hw, -, rfl⟩ := hrow' j w' hw'
    have hold := Counters.shapes_of_slots hw
    exact hold
  have hframe : ∀ book j guid, Frame s'.shapes book j guid → Frame s.shapes book j guid :=
    fun book j guid ⟨row, hr, hf⟩ => ⟨row, hshape j row hr, hf⟩
  have hslot : ∀ o x j, Slot s'.shapes o x j → Slot s.shapes o x j :=
    fun o x j ⟨row, hr, hf⟩ => ⟨row, hshape j row hr, hf⟩
  have hchild : ∀ c j, Child s'.shapes c j → Child s.shapes c j :=
    fun c j ⟨p, guid, hf, hi⟩ => ⟨p, guid, hframe _ p _ hf, hslot _ _ j hi⟩
  have hkeep : ∀ j, s.Committed j → s'.Committed j := by
    rintro j ⟨w, hw, hins⟩
    exact ⟨_, hrow j w hw (by simp [hins]), hins⟩
  have hback : ∀ j, s'.Committed j → s.Committed j := by
    rintro j ⟨w', hw', hins⟩
    obtain ⟨w, hw, -, rfl⟩ := hrow' j w' hw'
    exact ⟨w, hw, hins⟩
  have hforth : ∀ m j, m ≠ k → s.InsertedBy m j → s'.InsertedBy m j := by
    rintro m j hm ⟨w, hw, hins⟩
    exact ⟨_, hrow j w hw (by simpa [hins] using hm), hins⟩
  have hinserted : ∀ m j, s'.InsertedBy m j → m ≠ k ∧ s.InsertedBy m j := by
    rintro m j ⟨w', hw', hins⟩
    obtain ⟨w, hw, hne, rfl⟩ := hrow' j w' hw'
    exact ⟨fun hmk => hne (hmk ▸ hins), w, hw, hins⟩
  refine h.step ⟨?_, ?_, ?_, ?_, ?_, ?_, ?_, ?_, ?_⟩
    (fun j hjk => ⟨?_, fun m w hw hvis => ?_, fun c _ m => hslot _ _ m, ?_⟩) hphase'
    (fun m j hj => .inr ⟨(hinserted j m hj).1, (hinserted j m hj).2⟩) trivial (by simp)
  · intro j w' hw'
    obtain ⟨w, hw, -, -⟩ := hrow' j w' hw'
    rw [hserial]
    exact h.slots.bounded j w hw
  · exact fun book hb j guid hf => h.slots.frameGuid book hb j guid (hframe _ _ _ hf)
  · exact fun book hb i j guid guid' hi hj =>
      h.slots.frameUnique book hb i j guid guid' (hframe _ _ _ hi) (hframe _ _ _ hj)
  · exact fun book hb book' hb' i j guid hi hj =>
      h.slots.frameApart book hb book' hb' i j guid (hframe _ _ _ hi) (hframe _ _ _ hj)
  · exact fun o x i j hi hj => h.slots.slotUnique o x i j (hslot _ _ _ hi) (hslot _ _ _ hj)
  · intro c hb i j guid hf hi
    have hold := h.slots.childFrame c hb i j guid (hframe _ _ _ hf) (hslot _ _ _ hi)
    refine ⟨fun hc => hkeep j (hold.1 (hback i hc)), fun m hm => ?_⟩
    obtain ⟨hmk, hm⟩ := hinserted m i hm
    exact (hold.2 m hm).imp (hkeep j) (hforth m j hmk)
  · intro c hb i m hi hm
    obtain ⟨hmk, hm⟩ := hinserted m i hm
    have hold := h.slots.childInserted c hb i m (hchild c i hi) hm
    refine ⟨?_, fun j hj => hold.2 j (hslot _ _ j hj)⟩
    unfold Holds
    rw [hlocks]
    exact release_of_ne hmk hold.1
  · exact fun c hb i hi => hkeep i (h.slots.flatCommitted c hb i (hslot _ _ i hi))
  · intro j w' m u hw' hu
    obtain ⟨w, hw, -, rfl⟩ := hrow' j w' hw'
    exact h.slots.raised j w m u hw (Option.filter_eq_some_iff.1 hu).1
  · intro key hl
    rw [hlocks]
    exact release_of_ne hjk hl
  · have hne : w.insertedBy ≠ some k := by
      rcases hvis with hvis | hvis <;> rw [hvis] <;> simp [hjk]
    refine ⟨_, hrow m w hw hne, rfl, rfl, Int.le_refl _, fun u hu => ?_, fun _ => rfl⟩
    simp [hu, hjk]
  · exact fun c _ hno _ j hj => hno j (hchild c j hj)

/-! ## Steps that insert -/

section Insert

variable {row : SlotRow}

theorem slots_insert : (s.insert k row).slots =
    Function.update s.slots s.serial (some ⟨row, some k, none⟩) := rfl

theorem slots_insert_of_some (h : SlotsOk hashtext books s)
    (hv : s.slots i = some v) : (s.insert k row).slots i = some v := by
  have hlt := h.bounded i v hv
  rw [slots_insert, Function.update_of_ne (by omega), hv]

theorem slots_insert_cases (hv : (s.insert k row).slots i = some v) :
    (i = s.serial ∧ v = ⟨row, some k, none⟩) ∨ s.slots i = some v := by
  by_cases hi : i = s.serial
  · subst hi
    rw [slots_insert, Function.update_self, Option.some.injEq] at hv
    exact .inl ⟨rfl, hv.symm⟩
  · rw [slots_insert, Function.update_of_ne hi] at hv
    exact .inr hv

theorem slots_insert_self :
    (s.insert k row).slots s.serial = some ⟨row, some k, none⟩ := Function.update_self ..

theorem insertedBy_insert_self : (s.insert k row).InsertedBy k s.serial :=
  ⟨_, slots_insert_self, rfl⟩

theorem shapes_insert_of_some (h : SlotsOk hashtext books s) {shape : SlotRow}
    (hi : s.shapes i = some shape) : (s.insert k row).shapes i = some shape := by
  obtain ⟨v, hv, rfl⟩ := Counters.slots_of_shapes hi
  exact Counters.shapes_of_slots (slots_insert_of_some h hv)

theorem shapes_insert_cases {shape : SlotRow} (hi : (s.insert k row).shapes i = some shape) :
    (i = s.serial ∧ shape = row.shape) ∨ s.shapes i = some shape := by
  obtain ⟨v, hv, rfl⟩ := Counters.slots_of_shapes hi
  rcases slots_insert_cases hv with ⟨rfl, rfl⟩ | hv
  · exact .inl ⟨rfl, rfl⟩
  · exact .inr (Counters.shapes_of_slots hv)

theorem committed_insert (h : SlotsOk hashtext books s) :
    (s.insert k row).Committed i ↔ s.Committed i := by
  constructor
  · rintro ⟨v, hv, hins⟩
    rcases slots_insert_cases hv with ⟨-, rfl⟩ | hv
    · cases hins
    · exact ⟨v, hv, hins⟩
  · rintro ⟨v, hv, hins⟩
    exact ⟨v, slots_insert_of_some h hv, hins⟩

theorem insertedBy_insert_cases (hi : (s.insert k row).InsertedBy j i) :
    (j = k ∧ i = s.serial) ∨ s.InsertedBy j i := by
  obtain ⟨v, hv, hins⟩ := hi
  rcases slots_insert_cases hv with ⟨rfl, rfl⟩ | hv
  · exact .inl ⟨(Option.some.inj hins).symm, rfl⟩
  · exact .inr ⟨v, hv, hins⟩

theorem insertedBy_insert_of (h : SlotsOk hashtext books s) (hi : s.InsertedBy j i) :
    (s.insert k row).InsertedBy j i := by
  obtain ⟨v, hv, hins⟩ := hi
  exact ⟨v, slots_insert_of_some h hv, hins⟩

variable {book : String}

theorem frame_insert_cases {guid : Option String} (hf : Frame (s.insert k row).shapes book i guid) :
    (i = s.serial ∧ IsFrame book row ∧ row.guidVal = guid) ∨ Frame s.shapes book i guid := by
  obtain ⟨shape, hshape, hframe, hguid⟩ := hf
  rcases shapes_insert_cases hshape with ⟨hi, rfl⟩ | hshape
  · exact .inl ⟨hi, hframe, hguid⟩
  · exact .inr ⟨shape, hshape, hframe, hguid⟩

theorem slot_insert_cases {objGuid counterName : String}
    (hf : Slot (s.insert k row).shapes objGuid counterName i) :
    (i = s.serial ∧ IsCounter objGuid counterName row) ∨ Slot s.shapes objGuid counterName i := by
  obtain ⟨shape, hshape, hcounter⟩ := hf
  rcases shapes_insert_cases hshape with ⟨hi, rfl⟩ | hshape
  · exact .inl ⟨hi, hcounter⟩
  · exact .inr ⟨shape, hshape, hcounter⟩

theorem Frame.insert (h : SlotsOk hashtext books s) {guid : Option String}
    (hf : Frame s.shapes book i guid) : Frame (s.insert k row).shapes book i guid := by
  obtain ⟨shape, hshape, hframe⟩ := hf
  exact ⟨shape, shapes_insert_of_some h hshape, hframe⟩

theorem raised_insert (h : SlotsOk hashtext books s) {w : SlotRow}
    (hv : (s.insert k row).slots i = some v) (hu : v.update = some (j, w)) :
    v.insertedBy = none ∧ w = { v.row with int64Val := some (v.row.value + 1) } := by
  rcases slots_insert_cases hv with ⟨-, rfl⟩ | hv
  · cases hu
  · exact h.raised i v j w hv hu

theorem bounded_insert (h : SlotsOk hashtext books s)
    (hv : (s.insert k row).slots i = some v) : i < (s.insert k row).serial := by
  change i < s.serial + 1
  rcases slots_insert_cases hv with ⟨rfl, -⟩ | hv
  · omega
  · have := h.bounded i v hv
    omega

theorem not_isCounter_frame {objGuid counterName : String} (hf : IsFrame book row) :
    ¬ IsCounter objGuid counterName row := fun hc =>
  counterSlotName_ne counterName (hc.2.symm.trans hf.2.1)

end Insert

/-- The book of a call that creates a frame has none, committed or not. -/
def NoFrame (s : Counters) : Phase → Prop
  | .atCreateFrame c _ => ∀ i < s.serial, ∀ v ∈ s.slots i, ¬ IsFrame c.bookGuid v.row
  | _ => True

instance (s : Counters) (phase : Phase) : Decidable (NoFrame s phase) :=
  match phase with
  | .atCreateFrame c _ =>
    inferInstanceAs (Decidable (∀ i < s.serial, ∀ v ∈ s.slots i, ¬ IsFrame c.bookGuid v.row))
  | .idle | .atFrame .. | .atChild .. | .atFlat .. | .atIncrement .. | .atLock .. | .atSeed ..
  | .atCreateCounter .. | .returned .. | .committed .. => isTrue trivial

/-- When a call creates a frame, its book has none. -/
def OneFrame (step : Step) (s : Counters) : Prop :=
  match step with
  | .createFrame k _ => NoFrame s (s.phase k)
  | _ => True

instance (step : Step) (s : Counters) : Decidable (OneFrame step s) :=
  match step with
  | .createFrame k _ => inferInstanceAs (Decidable (NoFrame s (s.phase k)))
  | .call .. | .findFrame .. | .findChild .. | .findFlat .. | .increment .. | .lock ..
  | .seed .. | .createCounter .. | .commit .. | .abort .. => isTrue trivial

theorem Counters.Fresh.not_slot {guid : String} (hf : s.Fresh books guid)
    (h : SlotsOk hashtext books s) (counterName : String) (i : ℕ) :
    ¬ Slot s.shapes guid counterName i := by
  rintro ⟨shape, hshape, hobj, -⟩
  obtain ⟨v, hv, rfl⟩ := Counters.slots_of_shapes hshape
  exact (hf.2.2 i (h.bounded i v hv) v hv).1 hobj

theorem Counters.Fresh.not_frame {guid : String} (hf : s.Fresh books guid)
    (h : SlotsOk hashtext books s) (book : String) (i : ℕ) :
    ¬ Frame s.shapes book i (some guid) := by
  rintro ⟨shape, hshape, -, hguid⟩
  obtain ⟨v, hv, rfl⟩ := Counters.slots_of_shapes hshape
  exact (hf.2.2 i (h.bounded i v hv) v hv).2 hguid

theorem inv_createFrame {guid : String} (h : Inv hashtext books s)
    (hone : OneFrame (.createFrame k guid) s)
    (hstep : createFrameNext books k guid s = some s') : Inv hashtext books s' := by
  unfold createFrameNext at hstep
  split at hstep
  case h_2 => cases hstep
  case h_1 c next hphase =>
  obtain ⟨hb, hl, hflat⟩ : PhaseOk hashtext books s k (.atCreateFrame c next) :=
    hphase ▸ h.phases k
  obtain ⟨hfresh, hs⟩ := Option.ite_none_right_eq_some.1 hstep
  rw [Option.some.injEq] at hs
  set row : SlotRow := ⟨c.bookGuid, "counters", SLOT_FRAME, none, some guid⟩ with hrow
  have hnone : ∀ i g, ¬ Frame s.shapes c.bookGuid i g := by
    rintro i g ⟨shape, hshape, hframe, -⟩
    obtain ⟨v, hv, rfl⟩ := Counters.slots_of_shapes hshape
    simp only [OneFrame, hphase, NoFrame] at hone
    exact hone i (h.slots.bounded i v hv) v hv hframe
  have hisFrame : IsFrame c.bookGuid row := ⟨rfl, rfl, rfl⟩
  have hnewFrame : ∀ {book i g}, Frame (s.insert k row).shapes book i g →
      (i = s.serial ∧ book = c.bookGuid ∧ g = some guid) ∨ Frame s.shapes book i g := by
    intro book i g hf
    rcases frame_insert_cases hf with ⟨hi, hf, hg⟩ | hf
    · exact .inl ⟨hi, hf.1.symm, hg.symm⟩
    · exact .inr hf
  have hslot : ∀ {o x i}, Slot (s.insert k row).shapes o x i → Slot s.shapes o x i := by
    intro o x i hi
    exact (slot_insert_cases hi).resolve_left fun hc => not_isCounter_frame hisFrame hc.2
  have hchild : ∀ {c' i}, Child (s.insert k row).shapes c' i → Child s.shapes c' i := by
    rintro c' i ⟨j, g, hf, hi⟩
    rcases hnewFrame hf with ⟨-, -, hg⟩ | hf
    · obtain rfl : g = guid := Option.some.inj hg
      exact absurd (hslot hi) (hfresh.not_slot h.slots _ i)
    · exact ⟨j, g, hf, hslot hi⟩
  have hself : Frame (s.insert k row).shapes c.bookGuid s.serial (some guid) :=
    ⟨row.shape, Counters.shapes_of_slots slots_insert_self, hisFrame, rfl⟩
  rw [← hs]
  refine Inv.step (k := k) h
    (SlotsOk.of_slots_eq (s := s.insert k row) ⟨?_, ?_, ?_, ?_, ?_, ?_, ?_, ?_, ?_⟩ rfl rfl
      fun _ _ => id) (fun j hjk => ⟨fun _ => id, ?_, ?_, ?_⟩) rfl ?_ ?_ (by simp)
  · exact fun i v => bounded_insert h.slots
  · intro book hbook i g hf
    rcases hnewFrame hf with ⟨-, -, rfl⟩ | hf
    · exact ⟨guid, rfl, hfresh.1, hfresh.2.1⟩
    · exact h.slots.frameGuid book hbook i g hf
  · intro book hbook i j g g' hi hj
    rcases hnewFrame hi with ⟨rfl, rfl, -⟩ | hi
    · rcases hnewFrame hj with ⟨rfl, -, -⟩ | hj
      · rfl
      · exact absurd hj (hnone _ _)
    · rcases hnewFrame hj with ⟨-, rfl, -⟩ | hj
      · exact absurd hi (hnone _ _)
      · exact h.slots.frameUnique book hbook i j g g' hi hj
  · intro book hbook book' hbook' i j g hi hj
    rcases hnewFrame hi with ⟨-, rfl, hg⟩ | hi
    · rcases hnewFrame hj with ⟨-, rfl, -⟩ | hj
      · rfl
      · exact absurd (hg ▸ hj) (hfresh.not_frame h.slots _ _)
    · rcases hnewFrame hj with ⟨-, -, hg⟩ | hj
      · exact absurd (hg ▸ hi) (hfresh.not_frame h.slots _ _)
      · exact h.slots.frameApart book hbook book' hbook' i j g hi hj
  · exact fun o x i j hi hj => h.slots.slotUnique o x i j (hslot hi) (hslot hj)
  · intro c' hb' i j g hf hi
    rcases hnewFrame hf with ⟨-, -, hg⟩ | hf
    · obtain rfl : g = guid := Option.some.inj hg
      exact absurd (hslot hi) (hfresh.not_slot h.slots _ i)
    · have hold := h.slots.childFrame c' hb' i j g hf (hslot hi)
      refine ⟨fun hc => (committed_insert h.slots).2 (hold.1 ((committed_insert h.slots).1 hc)),
        fun m hm => ?_⟩
      rcases insertedBy_insert_cases hm with ⟨-, rfl⟩ | hm
      · obtain ⟨shape, hshape, -⟩ := hslot hi
        obtain ⟨v, hv, -⟩ := Counters.slots_of_shapes hshape
        exact absurd (h.slots.bounded _ v hv) (Nat.lt_irrefl _)
      · exact (hold.2 m hm).imp (committed_insert h.slots).2 (insertedBy_insert_of h.slots)
  · intro c' hb' i m hi hm
    rcases insertedBy_insert_cases hm with ⟨-, rfl⟩ | hm
    · obtain ⟨_, _, _, shape, hshape, -⟩ := hchild hi
      obtain ⟨v, hv, -⟩ := Counters.slots_of_shapes hshape
      exact absurd (h.slots.bounded _ v hv) (Nat.lt_irrefl _)
    · have hold := h.slots.childInserted c' hb' i m (hchild hi) hm
      exact ⟨hold.1, fun j hj => hold.2 j (hslot hj)⟩
  · exact fun c' hb' i hi => (committed_insert h.slots).2 (h.slots.flatCommitted c' hb' i (hslot hi))
  · exact fun i v m w => raised_insert h.slots
  · exact fun i v hv _ => ⟨v, slots_insert_of_some h.slots hv, Grown.refl j v⟩
  · exact fun c' _ i => hslot
  · exact fun c' _ hno _ i hi => hno i (hchild hi)
  · intro i j hi
    rcases insertedBy_insert_cases hi with ⟨rfl, -⟩ | hold
    · exact .inl ⟨rfl, trivial⟩
    · refine .inr ⟨fun hjk => ?_, hold⟩
      have hin := h.inserting i j hold
      rw [hjk, hphase] at hin
      exact hin
  · exact ⟨hb, hl, fun i hi => hflat i (hslot hi), fun i hi => by
      obtain ⟨j, g, hf, -⟩ := hchild hi
      exact hnone j _ hf, s.serial, .inr insertedBy_insert_self, hself⟩

theorem inv_createCounter (h : Inv hashtext books s) (hstep : createCounterNext k s = some s') :
    Inv hashtext books s' := by
  unfold createCounterNext at hstep
  split at hstep
  case h_2 => cases hstep
  case h_1 c next guid hphase =>
  obtain ⟨hb, hl, hflat, hno, p, hp, hframe⟩ :
      PhaseOk hashtext books s k (.atCreateCounter c next guid) := hphase ▸ h.phases k
  obtain ⟨-, hs⟩ := Option.ite_none_right_eq_some.1 hstep
  rw [Option.some.injEq] at hs
  set row : SlotRow := ⟨guid, counterSlotName c.counterName, SLOT_INT64, some next, none⟩
  have hguid : guid ∉ books := by
    obtain ⟨text, htext, -, hnot⟩ := h.slots.frameGuid _ hb p _ hframe
    rwa [Option.some.inj htext]
  have hnewFrame : ∀ {book i g}, Frame (s.insert k row).shapes book i g →
      Frame s.shapes book i g := by
    intro book i g hf
    refine (frame_insert_cases hf).resolve_left fun hc => ?_
    exact not_isCounter_frame hc.2.1 (⟨rfl, rfl⟩ : IsCounter guid c.counterName row)
  have hnewSlot : ∀ {o x i}, Slot (s.insert k row).shapes o x i →
      (i = s.serial ∧ o = guid ∧ x = c.counterName) ∨ Slot s.shapes o x i := by
    intro o x i hi
    rcases slot_insert_cases hi with ⟨hi, hobj, hname⟩ | hi
    · exact .inl ⟨hi, hobj.symm, (counterSlotName_inj hname).symm⟩
    · exact .inr hi
  have hchild : ∀ {c' : Call} {i}, c'.bookGuid ∈ books → Child (s.insert k row).shapes c' i →
      (i = s.serial ∧ c' = c) ∨ Child s.shapes c' i := by
    rintro c' i hb' ⟨j, g, hf, hi⟩
    have hold := hnewFrame hf
    rcases hnewSlot hi with ⟨hnew, hg, hx⟩ | hslot
    · have hbook := h.slots.frameApart _ hb' _ hb j p g hold (hg ▸ hframe)
      refine .inl ⟨hnew, ?_⟩
      cases c'
      cases c
      exact (Call.mk.injEq ..).symm ▸ ⟨hbook, hx⟩
    · exact .inr ⟨j, g, hold, hslot⟩
  have hflat' : ∀ {c' : Call} {i}, c'.bookGuid ∈ books → Flat (s.insert k row).shapes c' i →
      Flat s.shapes c' i := by
    intro c' i hb' hi
    exact (hnewSlot hi).resolve_left fun hc => hguid (hc.2.1 ▸ hb')
  have hself : Slot (s.insert k row).shapes guid c.counterName s.serial :=
    ⟨row.shape, Counters.shapes_of_slots slots_insert_self, rfl, rfl⟩
  have hframe' : Frame (s.insert k row).shapes c.bookGuid p (some guid) := hframe.insert h.slots
  rw [← hs]
  refine Inv.step (k := k) h
    (SlotsOk.of_slots_eq (s := s.insert k row) ⟨?_, ?_, ?_, ?_, ?_, ?_, ?_, ?_, ?_⟩ rfl rfl
      fun _ _ => id) (fun j hjk => ⟨fun _ => id, ?_, ?_, ?_⟩) rfl ?_ ?_ (by simp)
  · exact fun i v => bounded_insert h.slots
  · exact fun book hbook i g hf => h.slots.frameGuid book hbook i g (hnewFrame hf)
  · exact fun book hbook i j g g' hi hj =>
      h.slots.frameUnique book hbook i j g g' (hnewFrame hi) (hnewFrame hj)
  · exact fun book hbook book' hbook' i j g hi hj =>
      h.slots.frameApart book hbook book' hbook' i j g (hnewFrame hi) (hnewFrame hj)
  · intro o x i j hi hj
    rcases hnewSlot hi with ⟨hin, hio, hix⟩ | hi'
    · rcases hnewSlot hj with ⟨hjn, -, -⟩ | hj'
      · rw [hin, hjn]
      · rw [hio, hix] at hj'
        exact absurd ⟨p, _, hframe, hj'⟩ (hno j)
    · rcases hnewSlot hj with ⟨-, hjo, hjx⟩ | hj'
      · rw [hjo, hjx] at hi'
        exact absurd ⟨p, _, hframe, hi'⟩ (hno i)
      · exact h.slots.slotUnique o x i j hi' hj'
  · intro c' hb' i j g hf hi
    have hf' := hnewFrame hf
    rcases hnewSlot hi with ⟨rfl, hg, -⟩ | hslot
    · have hbook := h.slots.frameApart _ hb' _ hb j p g hf' (hg ▸ hframe)
      obtain rfl := h.slots.frameUnique _ hb' _ _ _ _ hf' (hbook ▸ hframe)
      refine ⟨fun hc => ?_, fun m hm => ?_⟩
      · exact absurd insertedBy_insert_self hc.not_insertedBy
      · rcases insertedBy_insert_cases hm with ⟨rfl, -⟩ | ⟨v, hv, -⟩
        · exact hp.imp (committed_insert h.slots).2 (insertedBy_insert_of h.slots)
        · exact absurd (h.slots.bounded _ v hv) (Nat.lt_irrefl _)
    · have hold := h.slots.childFrame c' hb' i j g hf' hslot
      refine ⟨fun hc => (committed_insert h.slots).2 (hold.1 ((committed_insert h.slots).1 hc)),
        fun m hm => ?_⟩
      rcases insertedBy_insert_cases hm with ⟨-, rfl⟩ | hm
      · obtain ⟨shape, hshape, -⟩ := hslot
        obtain ⟨v, hv, -⟩ := Counters.slots_of_shapes hshape
        exact absurd (h.slots.bounded _ v hv) (Nat.lt_irrefl _)
      · exact (hold.2 m hm).imp (committed_insert h.slots).2 (insertedBy_insert_of h.slots)
  · intro c' hb' i m hi hm
    rcases hchild hb' hi with ⟨rfl, rfl⟩ | hi
    · rcases insertedBy_insert_cases hm with ⟨rfl, -⟩ | ⟨v, hv, -⟩
      · exact ⟨hl, fun j hj => hflat j (hflat' hb' hj)⟩
      · exact absurd (h.slots.bounded _ v hv) (Nat.lt_irrefl _)
    · rcases insertedBy_insert_cases hm with ⟨-, rfl⟩ | hm
      · obtain ⟨_, _, _, shape, hshape, -⟩ := hi
        obtain ⟨v, hv, -⟩ := Counters.slots_of_shapes hshape
        exact absurd (h.slots.bounded _ v hv) (Nat.lt_irrefl _)
      · have hold := h.slots.childInserted c' hb' i m hi hm
        exact ⟨hold.1, fun j hj => hold.2 j (hflat' hb' hj)⟩
  · exact fun c' hb' i hi =>
      (committed_insert h.slots).2 (h.slots.flatCommitted c' hb' i (hflat' hb' hi))
  · exact fun i v m w => raised_insert h.slots
  · exact fun i v hv _ => ⟨v, slots_insert_of_some h.slots hv, Grown.refl j v⟩
  · exact fun c' hb' i => hflat' hb'
  · -- the lock keeps every other transaction from relying on the absence of this slot
    intro c' hb' hnoc hex i hi
    rcases hchild hb' hi with ⟨-, rfl⟩ | hi
    · rcases hex with ⟨m, hm⟩ | hholds
      · exact hflat m hm
      · unfold Holds at hl hholds
        rw [hl, Option.some.injEq] at hholds
        exact hjk hholds.symm
    · exact hnoc i hi
  · intro i j hi
    rcases insertedBy_insert_cases hi with ⟨rfl, -⟩ | hold
    · exact .inl ⟨rfl, trivial⟩
    · by_cases hjk : j = k
      · exact .inl ⟨hjk, trivial⟩
      · exact .inr ⟨hjk, hold⟩
  · exact ⟨hb, s.serial, _, slots_insert_self, .inl ⟨p, guid, hframe', hself⟩,
      .inr ⟨rfl, rfl, hl⟩⟩

theorem inv_next {step : Step} (hone : OneFrame step s)
    (hstep : next hashtext books step s = some s') (h : Inv hashtext books s) :
    Inv hashtext books s' := by
  cases step with
  | call k c => exact inv_call h hstep
  | findFrame k found => exact inv_findFrame h hstep
  | findChild k found => exact inv_findChild h hstep
  | findFlat k found => exact inv_findFlat h hstep
  | increment k => exact inv_increment h hstep
  | lock k => exact inv_lock h hstep
  | seed k existingIds => exact inv_seed h hstep
  | createFrame k guid => exact inv_createFrame h hone hstep
  | createCounter k => exact inv_createCounter h hstep
  | commit k => exact inv_commit h hstep
  | abort k => exact inv_abort h hstep

end Numbering
