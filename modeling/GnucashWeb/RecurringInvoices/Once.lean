import GnucashWeb.RecurringInvoices.Runner

/-!
# Recurring invoices are generated once

A run claims an occurrence by advancing the next date in one statement, but an edit writes back the
next date that it read.  `kept_of_undisturbed` is the main result: when every edit writes back the
next date that the definition still has and every claim leaves out no occurrence of the recurrence
that the definition then has, no occurrence is generated twice, no next date moves backwards and no
occurrence is passed over unclaimed; only a run that fails or dies after its claim skips one.
-/

namespace RecurringInvoices

open Recurrence Sessions Runs Rows

/-! ## What is promised -/

def Generated.key (g : Generated) : ℕ × ℤ := (g.defId, g.occurrence)

/-- What a step keeps: invoices are generated once, next dates do not move backwards, no occurrence
is left out when one moves, and each that was claimed is generated, about to be, or lost. -/
structure Kept (s s' : RunState) : Prop where
  once : (s'.db.generated.map Generated.key).Nodup
  forward : ∀ d ∈ s.db.defs, ∀ d' ∈ s'.db.defs, d'.id = d.id → d.nextDate ≤ d'.nextDate
  claimed : ∀ d ∈ s.db.defs, ∀ d' ∈ s'.db.defs, d'.id = d.id → ∀ x,
    (x = d.nextDate ∨ ∃ n, x ∈ schedule d.pattern n) → d.nextDate ≤ x → x < d'.nextDate →
      (d.id, x) ∈ s'.db.claimed
  served : ∀ key ∈ s'.db.claimed, key ∈ s'.db.generated.map Generated.key ∨
    (∃ k, (s'.phase k).inHand = some key) ∨ key ∈ s'.db.lost

def KeptBy (l : Step) (s : RunState) : Prop := ∀ s', next l s = some s' → Kept s s'

/-- No edit writes back a date that has been moved since it was read, and no claim advances over an
occurrence of the definition as it stands. -/
def Undisturbed (l : Step) (s : RunState) : Prop :=
  match l with
  | .advance k _ =>
    match s.phase k with
    | .claiming p occurrence =>
      ∀ next ∈ p.row.nextOccurrence occurrence, ∀ d ∈ s.db.defs, d.id = p.row.id →
        d.nextDate = occurrence → ∃ n ∈ d.nextOccurrence occurrence, next ≤ n
    | .writing merged =>
      ∀ d ∈ s.db.defs, d.bookGuid = merged.bookGuid ∧ d.id = merged.id →
        merged.nextDate = d.nextDate
    | _ => True
  | _ => True

instance (l : Step) (s : RunState) : Decidable (Undisturbed l s) := by
  unfold Undisturbed
  split
  · split
    · infer_instance
    · infer_instance
    · infer_instance
  · infer_instance

/-! ## What always holds -/

def Phase.Valid : Phase → Prop
  | .writing merged => 1 ≤ merged.mult
  | _ => True

/-- What holds between the steps of undisturbed runs. -/
structure Inv (s : RunState) : Prop where
  ids : (s.db.defs.map RecurringInvoiceDef.id).Nodup
  mult : ∀ d ∈ s.db.defs, 1 ≤ d.mult
  valid : ∀ k, (s.phase k).Valid
  before : ∀ d ∈ s.db.defs, ∀ o, (d.id, o) ∈ s.db.claimed → o < d.nextDate
  generated : ∀ key ∈ s.db.generated.map Generated.key, key ∈ s.db.claimed
  once : (s.db.generated.map Generated.key).Nodup
  held : ∀ k key, (s.phase k).inHand = some key →
    key ∈ s.db.claimed ∧ key ∉ s.db.generated.map Generated.key
  apart : ∀ j k key, (s.phase j).inHand = some key → (s.phase k).inHand = some key → j = k
  served : ∀ key ∈ s.db.claimed, key ∈ s.db.generated.map Generated.key ∨
    (∃ k, (s.phase k).inHand = some key) ∨ key ∈ s.db.lost

variable {s s' : RunState} {k : ℕ} {db : Db} {p : Phase}

theorem Inv.eq_of_id (h : Inv s) {d d' : RecurringInvoiceDef} (hd : d ∈ s.db.defs)
    (hd' : d' ∈ s.db.defs) (hid : d.id = d'.id) : d = d' :=
  List.inj_on_of_nodup_map h.ids hd hd' hid

theorem inHand_close_ne {j : ℕ} {key : ℕ × ℤ} (hp : p.inHand = none)
    (h : ((s.close k db p).phase j).inHand = some key) : j ≠ k ∧ (s.phase j).inHand = some key := by
  by_cases hjk : j = k
  · subst hjk
    rw [Sys.close_phase_self, hp] at h
    cases h
  · rw [Sys.close_phase_of_ne hjk] at h
    exact ⟨hjk, h⟩

theorem Inv.quiet (h : Inv s) (hold : ∀ key, (s.phase k).inHand = some key → key ∈ db.lost)
    (hlost : s.db.lost ⊆ db.lost) (hp : p.inHand = none)
    (hvalid : p.Valid) (hkeys : db.generated.map Generated.key = s.db.generated.map Generated.key)
    (hclaimed : db.claimed = s.db.claimed)
    (hids : db.defs.map RecurringInvoiceDef.id = s.db.defs.map RecurringInvoiceDef.id)
    (hmult : ∀ d ∈ db.defs, 1 ≤ d.mult)
    (hnext : ∀ d' ∈ db.defs, ∃ d ∈ s.db.defs, d.id = d'.id ∧ d.nextDate = d'.nextDate) :
    Inv (s.close k db p) ∧ Kept s (s.close k db p) := by
  have hserved : ∀ key ∈ db.claimed, key ∈ db.generated.map Generated.key ∨
      (∃ j, ((s.close k db p).phase j).inHand = some key) ∨ key ∈ db.lost := by
    rw [hclaimed, hkeys]
    intro key hkey
    rcases h.served key hkey with hgen | ⟨j, hj⟩ | hmem
    · exact .inl hgen
    · by_cases hjk : j = k
      · exact .inr (.inr (hold key (hjk ▸ hj)))
      · exact .inr (.inl ⟨j, by rwa [Sys.close_phase_of_ne hjk]⟩)
    · exact .inr (.inr (hlost hmem))
  have hsame : ∀ d ∈ s.db.defs, ∀ d' ∈ db.defs, d'.id = d.id → d'.nextDate = d.nextDate := by
    intro d hd d' hd' hid
    obtain ⟨d₀, hd₀, hid₀, hnext₀⟩ := hnext d' hd'
    rw [← hnext₀, h.eq_of_id hd₀ hd (hid₀.trans hid)]
  refine ⟨⟨hids ▸ h.ids, hmult, fun j => ?_, fun d' hd' o ho => ?_, ?_, hkeys ▸ h.once,
    fun j key hj => ?_, fun i j key hi hj => ?_, hserved⟩,
    ⟨hkeys ▸ h.once, fun d hd d' hd' hid => (hsame d hd d' hd' hid).ge,
      fun d hd d' hd' hid x _ hle hlt => ?_, hserved⟩⟩
  · by_cases hjk : j = k
    · subst hjk
      rwa [Sys.close_phase_self]
    · rw [Sys.close_phase_of_ne hjk]
      exact h.valid j
  · obtain ⟨d, hd, hid, hnext⟩ := hnext d' hd'
    rw [← hnext]
    exact h.before d hd o (by rwa [hid, ← hclaimed])
  · rw [Sys.close_db, hkeys, hclaimed]
    exact h.generated
  · rw [Sys.close_db, hkeys, hclaimed]
    exact h.held j key (inHand_close_ne hp hj).2
  · exact h.apart i j key (inHand_close_ne hp hi).2 (inHand_close_ne hp hj).2
  · have hnext := hsame d hd d' hd' hid
    omega

def claimedDef (id : ℕ) (occurrence next : ℤ) (d : RecurringInvoiceDef) : RecurringInvoiceDef :=
  if d.id = id ∧ d.nextDate = occurrence then
    { d with nextDate := next, lastRun := some occurrence } else d

@[simp] theorem claimedDef_id {id : ℕ} {occurrence next : ℤ} {d : RecurringInvoiceDef} :
    (claimedDef id occurrence next d).id = d.id := by
  unfold claimedDef
  split <;> rfl

@[simp] theorem claimedDef_mult {id : ℕ} {occurrence next : ℤ} {d : RecurringInvoiceDef} :
    (claimedDef id occurrence next d).mult = d.mult := by
  unfold claimedDef
  split <;> rfl

theorem claim_eq_some {id : ℕ} {occurrence next : ℤ} {db db' : Db}
    (h : claim id occurrence next db = some db') :
    (∃ d ∈ db.defs, d.id = id ∧ d.nextDate = occurrence) ∧
      db' = { db with
        defs := db.defs.map (claimedDef id occurrence next)
        claimed := (id, occurrence) :: db.claimed } := by
  unfold claim at h
  split_ifs at h with hany
  cases h
  exact ⟨by simpa using hany, rfl⟩

theorem Inv.claim (h : Inv s) {q : Progress} {occurrence next : ℤ}
    (hphase : s.phase k = .claiming q occurrence)
    (hdate : q.row.nextOccurrence occurrence = some next)
    (hclaim : RecurringInvoices.claim q.row.id occurrence next s.db = some db)
    (hC : ∀ d ∈ s.db.defs, d.id = q.row.id → d.nextDate = occurrence →
      ∃ n ∈ d.nextOccurrence occurrence, next ≤ n) :
    Inv (s.close k db (.creating q occurrence next)) ∧
      Kept s (s.close k db (.creating q occurrence next)) := by
  obtain ⟨⟨d₀, hd₀, hid₀, hnext₀⟩, rfl⟩ := claim_eq_some hclaim
  have hlt : occurrence < next := lt_nextOccurrence hdate
  have hnew : (q.row.id, occurrence) ∉ s.db.claimed := fun hmem => by
    have hbefore := h.before d₀ hd₀ occurrence (hid₀ ▸ hmem)
    omega
  have hother {j : ℕ} {key : ℕ × ℤ} (hjk : j ≠ k)
      (hj : ((s.close k (σ := Db) { s.db with
        defs := s.db.defs.map (claimedDef q.row.id occurrence next)
        claimed := (q.row.id, occurrence) :: s.db.claimed }
          (.creating q occurrence next)).phase j).inHand = some key) :
      (s.phase j).inHand = some key := by
    rwa [Sys.close_phase_of_ne hjk] at hj
  -- What the claim does to a next date.
  have hmoved {d : RecurringInvoiceDef} (hd : d ∈ s.db.defs) :
      (d.id = q.row.id ∧ d.nextDate = occurrence ∧
        (claimedDef q.row.id occurrence next d).nextDate = next) ∨
      (claimedDef q.row.id occurrence next d).nextDate = d.nextDate ∧ d.id ≠ q.row.id := by
    by_cases hid : d.id = q.row.id
    · obtain rfl := h.eq_of_id hd hd₀ (hid.trans hid₀.symm)
      exact .inl ⟨hid, hnext₀, by simp [claimedDef, hid, hnext₀]⟩
    · exact .inr ⟨by simp [claimedDef, hid], hid⟩
  have hserved : ∀ key ∈ (q.row.id, occurrence) :: s.db.claimed,
      key ∈ s.db.generated.map Generated.key ∨ (∃ j, ((s.close k (σ := Db) { s.db with
        defs := s.db.defs.map (claimedDef q.row.id occurrence next)
        claimed := (q.row.id, occurrence) :: s.db.claimed } (.creating q occurrence next)).phase
          j).inHand = some key) ∨ key ∈ s.db.lost := by
    intro key hkey
    rcases List.mem_cons.1 hkey with rfl | hkey
    · exact .inr (.inl ⟨k, by rw [Sys.close_phase_self]; rfl⟩)
    · refine (h.served key hkey).imp_right (Or.imp_left fun ⟨j, hj⟩ => ⟨j, ?_⟩)
      have hjk : j ≠ k := by
        rintro rfl
        rw [hphase] at hj
        cases hj
      rwa [Sys.close_phase_of_ne hjk]
  refine ⟨⟨?_, ?_, fun j => ?_, ?_, fun key hkey => List.mem_cons_of_mem _ (h.generated key hkey),
    h.once, fun j key hj => ?_, fun i j key hi hj => ?_, hserved⟩, ⟨h.once, ?_, ?_, hserved⟩⟩
  · have hids : s.db.defs.map (RecurringInvoiceDef.id ∘ claimedDef q.row.id occurrence next) =
        s.db.defs.map RecurringInvoiceDef.id := List.map_congr_left fun d _ => claimedDef_id
    rw [Sys.close_db, List.map_map, hids]
    exact h.ids
  · exact List.forall_mem_map.2 fun d hd => claimedDef_mult.symm ▸ h.mult d hd
  · by_cases hjk : j = k
    · subst hjk
      rw [Sys.close_phase_self]
      trivial
    · rw [Sys.close_phase_of_ne hjk]
      exact h.valid j
  · refine List.forall_mem_map.2 fun d hd o ho => ?_
    rw [claimedDef_id] at ho
    rcases hmoved hd with ⟨hid, hocc, hnext⟩ | ⟨hnext, hid⟩
    · rcases List.mem_cons.1 ho with ho | ho
      · have hsame : o = occurrence := congrArg Prod.snd ho
        omega
      · have hbefore := h.before d hd o ho
        omega
    · rcases List.mem_cons.1 ho with ho | ho
      · exact absurd (congrArg Prod.fst ho) hid
      · exact hnext ▸ h.before d hd o ho
  · by_cases hjk : j = k
    · subst hjk
      rw [Sys.close_phase_self] at hj
      cases hj
      exact ⟨List.mem_cons_self, fun hmem => hnew (h.generated _ hmem)⟩
    · obtain ⟨hclaimed, hnew⟩ := h.held j key (hother hjk hj)
      exact ⟨List.mem_cons_of_mem _ hclaimed, hnew⟩
  · by_cases hik : i = k
    · by_cases hjk : j = k
      · rw [hik, hjk]
      · subst hik
        rw [Sys.close_phase_self] at hi
        cases hi
        exact absurd (h.held j _ (hother hjk hj)).1 hnew
    · by_cases hjk : j = k
      · subst hjk
        rw [Sys.close_phase_self] at hj
        cases hj
        exact absurd (h.held i _ (hother hik hi)).1 hnew
      · exact h.apart i j key (hother hik hi) (hother hjk hj)
  · intro d hd
    refine List.forall_mem_map.2 fun d' hd' hid => ?_
    rw [claimedDef_id] at hid
    obtain rfl := h.eq_of_id hd' hd hid
    rcases hmoved hd' with ⟨-, hocc, hnext⟩ | ⟨hnext, -⟩
    · omega
    · exact hnext.ge
  · intro d hd
    refine List.forall_mem_map.2 fun d' hd' hid x hx hle hlt' => ?_
    rw [claimedDef_id] at hid
    obtain rfl := h.eq_of_id hd' hd hid
    rcases hmoved hd' with ⟨hid', hocc, hnext⟩ | ⟨hnext, -⟩
    · rcases hle.eq_or_lt with rfl | hafter
      · rw [hid', hocc]
        exact List.mem_cons_self
      · -- An occurrence after the claimed one is not before the next one.
        obtain ⟨n, hn⟩ := hx.resolve_left (by omega)
        obtain ⟨m, hm, hle'⟩ := hC d' hd' hid' hocc
        have hfirst := nextOccurrence_spec (h.mult d' hd') hm n x hn (by omega)
        omega
    · omega

theorem Inv.generate (h : Inv s) {q : Progress} {occurrence next : ℤ} {invoiceGuid : String}
    (hphase : s.phase k = .creating q occurrence next) (hp : p.inHand = none) (hvalid : p.Valid) :
    Inv (s.close k (RecurringInvoices.generate q.row occurrence invoiceGuid s.db) p) ∧
      Kept s (s.close k (RecurringInvoices.generate q.row occurrence invoiceGuid s.db) p) := by
  have hkey : (s.phase k).inHand = some (q.row.id, occurrence) := by
    rw [hphase]
    rfl
  obtain ⟨hclaimed, hnew⟩ := h.held k _ hkey
  have hgen : (RecurringInvoices.generate q.row occurrence invoiceGuid s.db).generated.map
      Generated.key = (q.row.id, occurrence) :: s.db.generated.map Generated.key := rfl
  have honce : ((RecurringInvoices.generate q.row occurrence invoiceGuid s.db).generated.map
      Generated.key).Nodup := List.nodup_cons.2 ⟨hnew, h.once⟩
  have hserved : ∀ key ∈ s.db.claimed,
      key ∈ (q.row.id, occurrence) :: s.db.generated.map Generated.key ∨
        (∃ j, ((s.close k (RecurringInvoices.generate q.row occurrence invoiceGuid s.db) p).phase
          j).inHand = some key) ∨ key ∈ s.db.lost := by
    intro key hmem
    rcases h.served key hmem with hmem | ⟨j, hj⟩ | hmem
    · exact .inl (List.mem_cons_of_mem _ hmem)
    · by_cases hjk : j = k
      · subst hjk
        rw [hkey] at hj
        cases hj
        exact .inl List.mem_cons_self
      · exact .inr (.inl ⟨j, by rwa [Sys.close_phase_of_ne hjk]⟩)
    · exact .inr (.inr hmem)
  refine ⟨⟨h.ids, h.mult, fun j => ?_, h.before, ?_, honce, fun j key hj => ?_,
    fun i j key hi hj => ?_, hserved⟩, ⟨honce, fun d hd d' hd' hid => ?_,
      fun d hd d' hd' hid x _ hle hlt => ?_, hserved⟩⟩
  · by_cases hjk : j = k
    · subst hjk
      rwa [Sys.close_phase_self]
    · rw [Sys.close_phase_of_ne hjk]
      exact h.valid j
  · rw [Sys.close_db, hgen]
    exact List.forall_mem_cons.2 ⟨hclaimed, h.generated⟩
  · obtain ⟨hjk, hj⟩ := inHand_close_ne hp hj
    refine ⟨(h.held j key hj).1, fun hmem => ?_⟩
    rw [Sys.close_db, hgen] at hmem
    rcases List.mem_cons.1 hmem with rfl | hmem
    · exact hjk (h.apart j k _ hj hkey)
    · exact (h.held j key hj).2 hmem
  · exact h.apart i j key (inHand_close_ne hp hi).2 (inHand_close_ne hp hj).2
  · rw [h.eq_of_id hd' hd hid]
  · obtain rfl := h.eq_of_id hd' hd hid
    omega

/-! ## A step -/

@[simp] theorem inHand_nextDef {asOf : ℤ} {rows : List RecurringInvoiceDef} :
    (nextDef asOf rows).inHand = none := by
  induction rows with
  | nil => rfl
  | cons row rest ih =>
    unfold nextDef
    split
    · rfl
    · exact ih

theorem valid_nextDef {asOf : ℤ} {rows : List RecurringInvoiceDef} : (nextDef asOf rows).Valid := by
  induction rows with
  | nil => trivial
  | cons row rest ih =>
    unfold nextDef
    split
    · trivial
    · exact ih

theorem Inv.idle (h : Inv s) (hold : (s.phase k).inHand = none) (hp : p.inHand = none)
    (hvalid : p.Valid) : Inv (s.close k s.db p) ∧ Kept s (s.close k s.db p) :=
  h.quiet (by simp [hold]) (List.Subset.refl _) hp hvalid rfl rfl rfl h.mult
    fun d hd => ⟨d, hd, rfl, rfl⟩

theorem Inv.lose (h : Inv s) (hp : p.inHand = none) (hvalid : p.Valid) :
    Inv (s.close k (RecurringInvoices.lose (s.phase k) s.db) p) ∧
      Kept s (s.close k (RecurringInvoices.lose (s.phase k) s.db) p) :=
  h.quiet (fun key hkey => by simp [RecurringInvoices.lose, hkey])
    (List.subset_append_right _ _) hp hvalid rfl rfl rfl h.mult fun d hd => ⟨d, hd, rfl, rfl⟩

theorem Inv.post (h : Inv s) {invoiceGuid : String} (hold : (s.phase k).inHand = none)
    (hp : p.inHand = none) (hvalid : p.Valid) :
    Inv (s.close k (RecurringInvoices.post invoiceGuid s.db) p) ∧
      Kept s (s.close k (RecurringInvoices.post invoiceGuid s.db) p) := by
  refine h.quiet (by simp [hold]) (List.Subset.refl _) hp hvalid ?_ rfl rfl h.mult
    fun d hd => ⟨d, hd, rfl, rfl⟩
  refine map_editAt (g := Generated.key) ?_ s.db.generated
  exact fun _ => rfl

theorem mult_of_validate {d : RecurringInvoiceDef} (h : validateRecurringInput d = none) :
    1 ≤ d.mult := by
  unfold validateRecurringInput at h
  split_ifs at h with _ _ hmult
  omega

theorem Inv.writeBack (h : Inv s) {merged : RecurringInvoiceDef}
    (hphase : s.phase k = .writing merged)
    (hC : ∀ d ∈ s.db.defs, d.bookGuid = merged.bookGuid ∧ d.id = merged.id →
      merged.nextDate = d.nextDate) :
    Inv (s.close k (RecurringInvoices.writeBack merged s.db) .idle) ∧
      Kept s (s.close k (RecurringInvoices.writeBack merged s.db) .idle) := by
  have hmult : 1 ≤ merged.mult := by
    have hvalid := h.valid k
    rwa [hphase] at hvalid
  have hold : (s.phase k).inHand = none := by
    rw [hphase]
    rfl
  refine h.quiet (by simp [hold]) (List.Subset.refl _) rfl trivial rfl rfl ?_ ?_ ?_
  · rw [RecurringInvoices.writeBack, List.map_map]
    refine List.map_congr_left fun d _ => ?_
    rw [Function.comp_apply]
    split
    · next hd => exact hd.2.symm
    · rfl
  · refine List.forall_mem_map.2 fun d hd => ?_
    split
    · exact hmult
    · exact h.mult d hd
  · refine List.forall_mem_map.2 fun d hd => ⟨d, hd, ?_⟩
    split
    · next hsame => exact ⟨hsame.2, (hC d hd hsame).symm⟩
    · exact ⟨rfl, rfl⟩

theorem inv_next {l : Step} (h : next l s = some s') (hC : Undisturbed l s) (hs : Inv s) :
    Inv s' ∧ Kept s s' := by
  cases l with
  | call k req =>
    simp only [next, callNext] at h
    split at h
    · next hphase =>
        cases h
        exact hs.idle (by rw [hphase]; rfl) rfl trivial
    · next hphase =>
        cases h
        exact hs.idle (by rw [hphase]; rfl) rfl trivial
    · cases h
  | advance k invoiceGuid =>
    simp only [next, advanceNext] at h
    simp only [Undisturbed] at hC
    cases hphase : s.phase k with
    | idle => simp [hphase] at h
    | scanning options =>
      simp only [hphase, Option.some.injEq] at h
      exact h ▸ hs.idle (by rw [hphase]; rfl) inHand_nextDef valid_nextDef
    | claiming q occurrence =>
      simp only [hphase, Option.some.injEq] at h
      simp only [hphase] at hC
      have hnext : (nextDef q.asOf q.rest).inHand = none := inHand_nextDef
      have hleave := hs.idle (k := k) (by rw [hphase]; rfl) hnext valid_nextDef
      subst h
      unfold claimNext
      split
      · exact hleave
      · next next hdate =>
          split
          · exact hleave
          · next db hclaim => exact hs.claim hphase hdate hclaim (hC next hdate)
    | creating q occurrence next =>
      simp only [hphase, Option.some.injEq] at h
      exact h ▸ hs.generate hphase rfl trivial
    | posting q occurrence next guid =>
      simp only [hphase, Option.some.injEq] at h
      have hp : (nextOccurrencePhase q next).inHand = none ∧
          (nextOccurrencePhase q next).Valid := by
        unfold nextOccurrencePhase
        split
        · exact ⟨rfl, trivial⟩
        · exact ⟨inHand_nextDef, valid_nextDef⟩
      subst h
      split
      · exact hs.post (by rw [hphase]; rfl) hp.1 hp.2
      · exact hs.idle (by rw [hphase]; rfl) hp.1 hp.2
    | editing bookGuid id input =>
      simp only [hphase, Option.some.injEq] at h
      have hold : (s.phase k).inHand = none := by rw [hphase]; rfl
      subst h
      unfold editNext
      split
      · exact hs.idle hold rfl trivial
      · split
        · exact hs.idle hold rfl trivial
        · next hvalid => exact hs.idle hold rfl (mult_of_validate hvalid)
    | writing merged =>
      simp only [hphase, Option.some.injEq] at h
      simp only [hphase] at hC
      exact h ▸ hs.writeBack hphase hC
  | fail k =>
    simp only [next, failNext] at h
    split at h
    · cases h
    · next hphase =>
        cases h
        exact hs.idle (by rw [hphase]; rfl) inHand_nextDef valid_nextDef
    · cases h
      exact hs.lose inHand_nextDef valid_nextDef
    · next hphase =>
        cases h
        exact hs.idle (by rw [hphase]; rfl) inHand_nextDef valid_nextDef
    · next hidle hclaiming hcreating hposting =>
        cases h
        refine hs.idle ?_ rfl trivial
        cases hphase : s.phase k with
        | creating q occurrence next => exact absurd hphase (hcreating q occurrence next)
        | _ => rfl
  | crash k =>
    cases h
    exact hs.lose rfl trivial

theorem inv_start {db : Db} (hids : (db.defs.map RecurringInvoiceDef.id).Nodup)
    (hmult : ∀ d ∈ db.defs, 1 ≤ d.mult) (hgenerated : db.generated = [])
    (hclaimed : db.claimed = []) :
    Inv (start db) where
  ids := hids
  mult := hmult
  valid := fun _ => trivial
  before := fun d _ o ho => by simp [start, hclaimed] at ho
  generated := by simp [start, hgenerated]
  once := by simp [start, hgenerated]
  held := nofun
  apart := nofun
  served := by simp [start, hclaimed]

/-- Undisturbed runs generate every occurrence once, in order, and leave out none. -/
theorem kept_of_undisturbed {db : Db} (hids : (db.defs.map RecurringInvoiceDef.id).Nodup)
    (hmult : ∀ d ∈ db.defs, 1 ≤ d.mult) (hgenerated : db.generated = [])
    (hclaimed : db.claimed = []) (steps : List Step) (h : Along next Undisturbed steps (start db)) :
    Along next KeptBy steps (start db) :=
  along_imp (P := Inv) (fun _ _ _ hC hnext hs => (inv_next hnext hC hs).1)
    (fun _ _ hs hC _ hnext => (inv_next hnext hC hs).2)
    (inv_start hids hmult hgenerated hclaimed) h

/-! ## Examples -/

def Step.session : Step → ℕ
  | .call k _ => k
  | .advance k _ => k
  | .fail k => k
  | .crash k => k

theorem exists_close {l : Step} (h : next l s = some s') :
    ∃ db p, s' = s.close l.session db p := by
  cases l with
  | call k req =>
    simp only [next, callNext] at h
    split at h <;> cases h <;> exact ⟨_, _, rfl⟩
  | advance k invoiceGuid =>
    simp only [next, advanceNext] at h
    cases hphase : s.phase k with
    | idle => simp [hphase] at h
    | claiming q occurrence =>
      simp only [hphase, Option.some.injEq] at h
      subst h
      unfold claimNext
      split
      · exact ⟨_, _, rfl⟩
      · split
        · exact ⟨_, _, rfl⟩
        · exact ⟨_, _, rfl⟩
    | editing bookGuid id input =>
      simp only [hphase, Option.some.injEq] at h
      subst h
      unfold editNext
      split
      · exact ⟨_, _, rfl⟩
      · split
        · exact ⟨_, _, rfl⟩
        · exact ⟨_, _, rfl⟩
    | _ =>
      simp only [hphase, Option.some.injEq] at h
      exact ⟨_, _, h.symm⟩
  | fail k =>
    simp only [next, failNext] at h
    split at h
    · cases h
    all_goals exact ⟨_, _, (Option.some.inj h).symm⟩
  | crash k => exact ⟨_, _, (Option.some.inj h).symm⟩

theorem phase_of_ne {l : Step} (h : next l s = some s') (hk : k ≠ l.session) :
    s'.phase k = s.phase k := by
  obtain ⟨db, p, rfl⟩ := exists_close h
  exact Sys.close_phase_of_ne hk

def weekly : RecurringInvoiceDef where
  id := 1
  bookGuid := "book"
  name := "Rent"
  ownerType := .customer
  ownerGuid := "0123456789abcdef0123456789abcdef"
  template := ⟨[⟨"income", 1, 100⟩], none, none, none, none⟩
  periodType := .weekly
  mult := 1
  startDate := 0
  lastRun := none
  nextDate := 0
  autoPost := true
  active := true

def weeklyDb : Db := ⟨[weekly], [], [], []⟩

def renamed : UpdateRecurringInput where
  name := some "Rent (office)"
  template := none
  periodType := none
  mult := none
  startDate := none
  nextDate := none
  autoPost := none
  active := none

/-- Two runs that overlap, and an edit between two claims. -/
def overlapping : List Step :=
  [.call 0 (.run ⟨"book", 10, none⟩), .call 1 (.run ⟨"book", 10, none⟩), .advance 0 "",
    .advance 1 "", .advance 0 "", .call 2 (.update "book" 1 renamed), .advance 1 "", .advance 2 "",
    .advance 2 "", .advance 0 "i0", .advance 0 "", .advance 0 "", .advance 0 "i1", .advance 0 ""]

theorem kept_overlapping : Along next KeptBy overlapping (start weeklyDb) :=
  kept_of_undisturbed (by decide) (by decide) rfl rfl overlapping (by decide +kernel)

def failedRun : List Step :=
  [.call 0 (.run ⟨"book", 0, none⟩), .advance 0 "", .advance 0 "", .fail 0]

/-- An edit that reads the definition before a claim and writes it back after the invoice. -/
def staleEdit : List Step :=
  [.call 0 (.update "book" 1 renamed), .advance 0 "", .call 1 (.run ⟨"book", 0, none⟩),
    .advance 1 "", .advance 1 "", .advance 1 "i0", .advance 1 "", .advance 0 "",
    .call 1 (.run ⟨"book", 0, none⟩), .advance 1 "", .advance 1 "", .advance 1 "i1"]

/-- The failed run leaves the occurrence claimed, not generated and in no hands; after the edit it
is generated twice. -/
theorem occurrence_skipped_and_generated_twice :
    (∃ s, run next failedRun (start weeklyDb) = some s ∧ (1, 0) ∈ s.db.claimed ∧
      s.db.generated = [] ∧ ∀ k, (s.phase k).inHand = none) ∧
    ∃ s, run next staleEdit (start weeklyDb) = some s ∧
      s.db.generated.map Generated.key = [(1, 0), (1, 0)] := by
  constructor
  · obtain ⟨s, hs, hclaimed, hgenerated, hzero⟩ : ∃ s ∈ run next failedRun (start weeklyDb),
        (1, 0) ∈ s.db.claimed ∧ s.db.generated = [] ∧ (s.phase 0).inHand = none := by
      decide +kernel
    refine ⟨s, hs, hclaimed, hgenerated, fun k => ?_⟩
    by_cases hk : k = 0
    · rwa [hk]
    · have halong : Along next (fun l _ => l.session = 0) failedRun (start weeklyDb) :=
        along_of_forall (by decide) _
      exact invariant_along (P := fun s => (s.phase k).inHand = none)
        (fun l s s' hl hnext hs => by rwa [phase_of_ne hnext (hl ▸ hk)]) hs halong rfl
  · have h : ∃ s ∈ run next staleEdit (start weeklyDb),
        s.db.generated.map Generated.key = [(1, 0), (1, 0)] := by
      decide +kernel
    exact h

end RecurringInvoices
