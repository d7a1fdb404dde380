import Mathlib.Data.Fintype.Card
import Mathlib.Data.List.Nodup
import Mathlib.Data.Set.Finite.Basic
import Mathlib.Logic.Relation
import Mathlib.Order.WellFounded

/-!
# Kahn's algorithm with a queue

`sort` takes the nodes that wait for nothing from a queue and puts the nodes they free at its end.
Its output is characterised by the nodes that have been in the queue at each time (`IsOutput`), from
which it follows that the output is topological (`IsOutput.deps_before`) and complete when there is no
cycle (`IsOutput.mem_of_acyclic`).

A node is output before every node that has a longer chain of dependencies behind it
(`IsOutput.before_of_hasChain`), and that is all there is to say for every order in which the nodes
may be listed (`forall_before_iff`).
-/

namespace Kahn

open Relation (TransGen)

variable {α : Type}

/-! ## One node before another -/

/-- The first node is in a part of the list, the second after it. -/
def Before (l : List α) (a b : α) : Prop := ∃ p t, p ++ t = l ∧ a ∈ p ∧ b ∈ t

variable {l p t : List α} {a b k : α} {m : ℕ}

theorem Before.not_before (hl : l.Nodup) (h : Before l a b) :
    ¬Before l b a := by
  rintro ⟨p', t', rfl, hb', ha'⟩
  obtain ⟨p, t, heq, ha, hb⟩ := h
  rcases List.append_eq_append_iff.1 heq with ⟨l', rfl, -⟩ | ⟨l', rfl, rfl⟩
  · exact (List.nodup_append'.1 hl).2.2 (List.mem_append_left _ ha) ha'
  · rw [← heq] at hl
    exact (List.nodup_append'.1 hl).2.2 (List.mem_append_left _ hb') hb

theorem Before.append (ha : a ∈ p) (hb : b ∈ t) : Before (p ++ t) a b :=
  ⟨p, t, rfl, ha, hb⟩

theorem Before.of_append_right (h : Before t a b) :
    Before (p ++ t) a b := by
  obtain ⟨q, t, rfl, ha, hb⟩ := h
  exact ⟨p ++ q, t, List.append_assoc p q t, List.mem_append_right _ ha, hb⟩

theorem Before.of_isPrefix {l' : List α} (h : Before l a b) (hl : l <+: l') :
    Before l' a b := by
  obtain ⟨p, t, rfl, ha, hb⟩ := h
  obtain ⟨rest, rfl⟩ := hl
  exact ⟨p, t ++ rest, (List.append_assoc p t rest).symm, ha, List.mem_append_left _ hb⟩

theorem Before.filter (h : Before l a b) {q : α → Bool} (ha : q a = true)
    (hb : q b = true) : Before (l.filter q) a b := by
  obtain ⟨p, t, rfl, hap, hbt⟩ := h
  rw [List.filter_append]
  exact .append (List.mem_filter.2 ⟨hap, ha⟩) (List.mem_filter.2 ⟨hbt, hb⟩)

theorem Before.mem (h : Before l a b) : a ∈ l := by
  obtain ⟨p, t, rfl, ha, -⟩ := h
  exact List.mem_append_left _ ha

theorem Before.mem_left (hl : (p ++ b :: t).Nodup) (h : Before (p ++ b :: t) a b) : a ∈ p := by
  refine (List.mem_append.1 h.mem).resolve_right fun ha => h.not_before hl ?_
  rcases List.mem_cons.1 ha with rfl | ha
  · exact h
  · exact ⟨p ++ [b], t, by simp, by simp, ha⟩

/-! ## The algorithm -/

variable [DecidableEq α]

/-- A node with the nodes it still waits for and their number. -/
structure Entry (α : Type) where
  key : α
  deps : List α
  inDegree : ℕ
deriving DecidableEq, Repr

structure State (α : Type) where
  queue : List α
  order : List α
  entries : List (Entry α)

/-- A node stops waiting for the current one. -/
def release (current : α) (e : Entry α) : Entry α :=
  if current ∈ e.deps then
    { e with
      deps := e.deps.erase current
      inDegree := (if e.inDegree = 0 then 1 else e.inDegree) - 1 }
  else e

/-- The node waited for the current one and now waits for nothing. -/
def isFreed (current : α) (e : Entry α) : Bool :=
  current ∈ e.deps && (release current e).inDegree = 0

def step (s : State α) : State α :=
  match s.queue with
  | [] => s
  | current :: queue =>
    { queue := queue ++ (s.entries.filter (isFreed current)).map Entry.key
      order := s.order ++ [current]
      entries := s.entries.map (release current) }

def start (entries : List (Entry α)) : State α where
  queue := (entries.filter (·.inDegree = 0)).map Entry.key
  order := []
  entries := entries

/-- The nodes in the order in which they leave the queue.  A node is queued once, so there are no
more steps than nodes (`queue_sort`). -/
def sort (entries : List (Entry α)) : List α := (step^[entries.length] (start entries)).order

/-! ## The nodes queued so far -/

variable (K : List α) (D : α → List α)

/-- All dependencies of the node have been output. -/
def isReady (done : List α) (k : α) : Bool := ∀ d ∈ D k, d ∈ done

/-- What is left of a node's entry after an output. -/
def waiting (done : List α) (k : α) : Entry α :=
  ⟨k, (D k).filter (· ∉ done), ((D k).filter (· ∉ done)).length⟩

/-- The nodes queued until so many nodes of the output have left the queue. -/
def queued (output : List α) : ℕ → List α
  | 0 => K.filter (isReady D [])
  | n + 1 => queued output n ++
      K.filter fun k => isReady D (output.take (n + 1)) k && !isReady D (output.take n) k

/-- A list is an output: all that is ever queued is output in this order, and the queue does not run
empty before. -/
structure IsOutput (output : List α) : Prop where
  queued_length : queued K D output output.length = output
  lt_length : ∀ n < output.length, n < (queued K D output n).length

variable {K D} {output done : List α} {n : ℕ}

theorem isReady_iff : isReady D done k = true ↔ ∀ d ∈ D k, d ∈ done := by simp [isReady]

theorem isReady_mono {done' : List α} (h : done ⊆ done') (hk : isReady D done k = true) :
    isReady D done' k = true :=
  isReady_iff.2 fun d hd => h (isReady_iff.1 hk d hd)

theorem queued_isPrefix {n : ℕ} (h : m ≤ n) : queued K D output m <+: queued K D output n := by
  induction h with
  | refl => exact List.prefix_rfl
  | step _ ih => exact ih.trans (List.prefix_append _ _)

theorem mem_queued :
    k ∈ queued K D output n ↔ k ∈ K ∧ isReady D (output.take n) k = true := by
  induction n with
  | zero => simp [queued]
  | succ n ih =>
    rw [queued, List.mem_append, ih, List.mem_filter, Bool.and_eq_true, Bool.not_eq_true']
    have hmono := isReady_mono (D := D) (k := k) (output.take_subset_take_left n.le_succ)
    cases hready : isReady D (output.take n) k <;> simp_all

theorem queued_nodup (hK : K.Nodup) : (queued K D output n).Nodup := by
  induction n with
  | zero => exact hK.filter _
  | succ n ih =>
    refine ih.append (hK.filter _) fun k hk hnew => ?_
    have hnot := (List.mem_filter.1 hnew).2
    simp [(mem_queued.1 hk).2] at hnot

theorem queued_congr {output' : List α} (h : output.take n = output'.take n) :
    queued K D output n = queued K D output' n := by
  induction n with
  | zero => rfl
  | succ n ih =>
    have hn : output.take n = output'.take n := by
      simpa [List.take_take] using congrArg (List.take n) h
    rw [queued, queued, ih hn, h, hn]

/-! ## The algorithm outputs them -/

theorem release_mk (current k : α) (deps : List α) :
    release current ⟨k, deps, deps.length⟩ =
      ⟨k, deps.erase current, (deps.erase current).length⟩ := by
  unfold release
  by_cases hmem : current ∈ deps
  · have hpos := List.length_pos_of_mem hmem
    rw [if_pos hmem, List.length_erase_of_mem hmem]
    simp [hpos.ne']
  · rw [if_neg hmem, List.erase_of_not_mem hmem]

theorem release_waiting (hD : ∀ k, (D k).Nodup) (current k : α) :
    release current (waiting D done k) = waiting D (done ++ [current]) k := by
  have herase : ((D k).filter (· ∉ done)).erase current =
      (D k).filter (· ∉ done ++ [current]) := by
    rw [((hD k).filter _).erase_eq_filter, List.filter_filter]
    refine List.filter_congr fun d _ => ?_
    by_cases hd : d ∈ done <;> by_cases hc : d = current <;> simp [hd, hc]
  rw [waiting, release_mk, herase, waiting]

theorem isFreed_waiting (hD : ∀ k, (D k).Nodup) {current : α} (hcurrent : current ∉ done) (k : α) :
    isFreed current (waiting D done k) =
      (isReady D (done ++ [current]) k && !isReady D done k) := by
  rw [Bool.eq_iff_iff, isFreed, release_waiting hD]
  simp only [waiting, Bool.and_eq_true, Bool.not_eq_true', decide_eq_true_eq,
    List.length_eq_zero_iff, List.filter_eq_nil_iff, not_not, List.mem_filter,
    ← Bool.not_eq_true, isReady_iff]
  constructor
  · rintro ⟨⟨hmem, _⟩, hall⟩
    exact ⟨hall, fun h => hcurrent (h current hmem)⟩
  · rintro ⟨hall, hnot⟩
    obtain ⟨d, hd, hdone⟩ : ∃ d ∈ D k, d ∉ done := by simpa using hnot
    obtain rfl : d = current := by
      rcases List.mem_append.1 (hall d hd) with h | h
      · exact absurd h hdone
      · exact List.mem_singleton.1 h
    exact ⟨⟨hd, hcurrent⟩, hall⟩

theorem keys_filter_waiting (p : Entry α → Bool) :
    ((K.map (waiting D done)).filter p).map Entry.key = K.filter fun k => p (waiting D done k) := by
  rw [List.filter_map, List.map_map]
  exact List.map_id'' (fun _ => rfl) _

structure Invariant (K : List α) (D : α → List α) (s : State α) : Prop where
  entries : s.entries = K.map (waiting D s.order)
  queued : queued K D (s.order ++ s.queue) s.order.length = s.order ++ s.queue
  lt_length : ∀ n < s.order.length, n < (Kahn.queued K D (s.order ++ s.queue) n).length

theorem invariant_start : Invariant K D (start (K.map (waiting D []))) where
  entries := rfl
  queued := by
    have hkeys : (start (K.map (waiting D []))).queue = K.filter (isReady D []) := by
      rw [start, keys_filter_waiting]
      refine List.filter_congr fun k _ => ?_
      rw [Bool.eq_iff_iff, isReady_iff]
      simp [waiting, List.eq_nil_iff_forall_not_mem]
    rw [hkeys]
    rfl
  lt_length := nofun

theorem Invariant.nodup (hK : K.Nodup) {s : State α} (h : Invariant K D s) :
    (s.order ++ s.queue).Nodup := by
  rw [← h.queued]
  exact queued_nodup hK

theorem Invariant.step (hK : K.Nodup) (hD : ∀ k, (D k).Nodup) {s : State α}
    (h : Invariant K D s) : Invariant K D (step s) := by
  obtain ⟨queue, order, entries⟩ := s
  cases queue with
  | nil => exact h
  | cons current queue =>
    have hentries : entries = K.map (waiting D order) := h.entries
    have hqueued : Kahn.queued K D (order ++ current :: queue) order.length =
        order ++ current :: queue := h.queued
    have hnot : current ∉ order := fun hmem =>
      (List.nodup_append'.1 (h.nodup hK)).2.2 hmem List.mem_cons_self
    have hfreed : (entries.filter (isFreed current)).map Entry.key =
        K.filter fun k => isReady D (order ++ [current]) k && !isReady D order k := by
      rw [hentries, keys_filter_waiting]
      exact List.filter_congr fun k _ => isFreed_waiting hD hnot k
    set freed := (entries.filter (isFreed current)).map Entry.key
    have hlater {n : ℕ} (hn : n ≤ order.length) :
        Kahn.queued K D (order ++ [current] ++ (queue ++ freed)) n =
          Kahn.queued K D (order ++ current :: queue) n := by
      refine queued_congr ?_
      rw [List.append_assoc, List.take_append_of_le_length hn, List.take_append_of_le_length hn]
    refine ⟨?_, ?_, ?_⟩
    · show entries.map (release current) = K.map (waiting D (order ++ [current]))
      rw [hentries, List.map_map]
      exact List.map_congr_left fun k _ => release_waiting hD current k
    · show Kahn.queued K D (order ++ [current] ++ (queue ++ freed)) (order ++ [current]).length =
        order ++ [current] ++ (queue ++ freed)
      rw [List.length_append, List.length_singleton, Kahn.queued, hlater le_rfl, hqueued]
      have htake : (order ++ [current] ++ (queue ++ freed)).take (order.length + 1) =
          order ++ [current] := by
        rw [List.take_append_of_le_length (by simp), List.take_of_length_le (by simp)]
      have htake' : (order ++ [current] ++ (queue ++ freed)).take order.length = order := by
        rw [List.append_assoc, List.take_append_of_le_length le_rfl,
          List.take_of_length_le le_rfl]
      rw [htake, htake', ← hfreed]
      simp
    · intro n hn
      show n < (Kahn.queued K D (order ++ [current] ++ (queue ++ freed)) n).length
      have hn : n < order.length + 1 := by simpa [Kahn.step] using hn
      rw [hlater (by omega)]
      rcases Nat.lt_succ_iff_lt_or_eq.1 hn with hlt | rfl
      · exact h.lt_length n hlt
      · rw [hqueued]
        simp

theorem invariant_iterate (hK : K.Nodup) (hD : ∀ k, (D k).Nodup) (n : ℕ) :
    Invariant K D (step^[n] (start (K.map (waiting D [])))) := by
  induction n with
  | zero => exact invariant_start
  | succ n ih =>
    rw [Function.iterate_succ_apply']
    exact ih.step hK hD

theorem queue_or_length (s : State α) (hs : s.order = []) (n : ℕ) :
    (step^[n] s).queue = [] ∨ (step^[n] s).order.length = n := by
  induction n with
  | zero => simp [hs]
  | succ n ih =>
    rw [Function.iterate_succ_apply']
    generalize step^[n] s = t at ih ⊢
    unfold step
    cases hqueue : t.queue with
    | nil => exact .inl hqueue
    | cons current queue =>
      refine .inr ?_
      have hlength := ih.resolve_left (by simp [hqueue])
      simp [hlength]

/-- When there have been as many steps as there are nodes, nothing is left in the queue. -/
theorem queue_sort (hK : K.Nodup) (hD : ∀ k, (D k).Nodup) :
    (step^[K.length] (start (K.map (waiting D [])))).queue = [] := by
  have h := invariant_iterate hK hD K.length
  rcases queue_or_length (start (K.map (waiting D []))) rfl K.length with hnil | hlength
  · exact hnil
  · generalize step^[K.length] (start (K.map (waiting D []))) = s at h hlength
    have hsub : s.order ++ s.queue ⊆ K := by
      rw [← h.queued]
      exact fun k hk => (mem_queued.1 hk).1
    have hle := (List.subperm_of_subset (h.nodup hK) hsub).length_le
    rw [List.length_append] at hle
    exact List.length_eq_zero_iff.1 (by omega)

theorem isOutput_sort (hK : K.Nodup) (hD : ∀ k, (D k).Nodup) :
    IsOutput K D (sort (K.map (waiting D []))) := by
  have h := invariant_iterate hK hD K.length
  have hnil := queue_sort hK hD
  rw [sort, List.length_map]
  generalize step^[K.length] (start (K.map (waiting D []))) = s at h hnil
  have hqueued := h.queued
  have hlt := h.lt_length
  rw [hnil, List.append_nil] at hqueued hlt
  exact ⟨hqueued, hlt⟩

/-! ## The order of the output -/

namespace IsOutput

variable (h : IsOutput K D output)

include h

theorem queued_isPrefix (hn : n ≤ output.length) : queued K D output n <+: output := by
  have hpart : queued K D output n <+: queued K D output output.length :=
    Kahn.queued_isPrefix hn
  rwa [h.queued_length] at hpart

theorem nodup (hK : K.Nodup) : output.Nodup := by
  rw [← h.queued_length]
  exact queued_nodup hK

theorem mem_iff : k ∈ output ↔ k ∈ K ∧ ∀ d ∈ D k, d ∈ output := by
  conv_lhs => rw [← h.queued_length]
  rw [mem_queued, List.take_length, isReady_iff]

theorem deps_mem_take {d : α} (hd : d ∈ D k) (hk : k ∈ output.take (n + 1)) :
    d ∈ output.take n := by
  rcases Nat.lt_or_ge n output.length with hn | hn
  · have hpart : output.take (n + 1) <+: queued K D output n := by
      refine List.prefix_of_prefix_length_le (List.take_prefix _ _) (h.queued_isPrefix hn.le) ?_
      rw [List.length_take]
      have := h.lt_length n hn
      omega
    exact isReady_iff.1 (mem_queued.1 (hpart.subset hk)).2 d hd
  · rw [List.take_of_length_le (by omega)] at hk ⊢
    exact (h.mem_iff.1 hk).2 d hd

theorem before_of_isReady (hn : n ≤ output.length) (ha : a ∈ K) (hb : b ∈ output)
    (hready : isReady D (output.take n) a = true) (hnot : isReady D (output.take n) b ≠ true) :
    Before output a b := by
  obtain ⟨rest, hrest⟩ := h.queued_isPrefix hn
  refine ⟨_, rest, hrest, mem_queued.2 ⟨ha, hready⟩, ?_⟩
  rw [← hrest] at hb
  exact (List.mem_append.1 hb).resolve_left fun hmem => hnot (mem_queued.1 hmem).2

theorem mem_of_acyclic (hclosed : ∀ k ∈ K, ∀ d ∈ D k, d ∈ K)
    (hacyclic : ∀ k, ¬TransGen (fun d k => d ∈ D k) k k) (hk : k ∈ K) : k ∈ output := by
  let below (d k : {k // k ∈ K}) : Prop := TransGen (fun d k => d ∈ D k) d.1 k.1
  have hwf : WellFounded below := by
    have : Finite {k // k ∈ K} := (List.finite_toSet K).to_subtype
    have : IsTrans _ below := ⟨fun _ _ _ => TransGen.trans⟩
    have : Std.Irrefl below := ⟨fun k => hacyclic k.1⟩
    exact Finite.wellFounded_of_trans_of_irrefl below
  suffices ∀ k : {k // k ∈ K}, k.1 ∈ output from this ⟨k, hk⟩
  intro k
  induction k using hwf.induction with
  | _ k ih =>
    exact h.mem_iff.2 ⟨k.2, fun d hd => ih ⟨d, hclosed k.1 k.2 d hd⟩ (.single hd)⟩

end IsOutput

/-- So many dependencies are chained up behind the node. -/
def HasChain (D : α → List α) : ℕ → α → Prop
  | 0, _ => True
  | n + 1, k => ∃ d ∈ D k, HasChain D n d

omit [DecidableEq α] in
theorem HasChain.mono (hmn : m ≤ n) (h : HasChain D n k) : HasChain D m k := by
  induction m generalizing n k with
  | zero => trivial
  | succ m ih =>
    obtain ⟨n, rfl⟩ : ∃ j, n = j + 1 := ⟨n - 1, by omega⟩
    obtain ⟨d, hd, hchain⟩ := h
    exact ⟨d, hd, ih (by omega) hchain⟩

section Chains

variable (h : IsOutput K D output)

include h

theorem IsOutput.lt_of_hasChain (hchain : HasChain D n k) (hk : k ∈ output.take m) : n < m := by
  induction n generalizing k m with
  | zero => exact Nat.pos_of_ne_zero fun hm => by simp [hm] at hk
  | succ n ih =>
    obtain ⟨d, hd, hchain⟩ := hchain
    cases m with
    | zero => simp at hk
    | succ m => exact Nat.succ_lt_succ (ih hchain (h.deps_mem_take hd hk))

theorem IsOutput.before_of_hasChain (hK : K.Nodup) (ha : a ∈ output) (hb : b ∈ output)
    (hchain : HasChain D n b) (hnot : ¬HasChain D n a) : Before output a b := by
  induction n generalizing a b with
  | zero => exact absurd trivial hnot
  | succ n ih =>
    obtain ⟨d, hd, hchain⟩ := hchain
    have hdout : d ∈ output := (h.mem_iff.1 hb).2 d hd
    obtain ⟨p, t, rfl⟩ := List.append_of_mem hdout
    have hnodup := h.nodup hK
    have htake : (p ++ d :: t).take p.length = p := List.take_left' rfl
    refine h.before_of_isReady (n := p.length) (by simp) (h.mem_iff.1 ha).1 hb ?_ ?_
    · rw [htake]
      refine isReady_iff.2 fun e he => ?_
      have hbefore := ih ((h.mem_iff.1 ha).2 e he) hdout hchain fun hc => hnot ⟨e, he, hc⟩
      exact hbefore.mem_left hnodup
    · rw [htake]
      exact fun hready => (List.nodup_append'.1 hnodup).2.2 (isReady_iff.1 hready d hd)
        List.mem_cons_self

end Chains

/-! ## The last node of its depth -/

section Last

variable {z : ℕ → α} (hz : ∀ i < n, z i ∈ D (z (i + 1)))

include hz

variable {i : ℕ}

omit [DecidableEq α] in
theorem hasChain_chain (hi : i ≤ n) : HasChain D i (z i) := by
  induction i with
  | zero => trivial
  | succ i ih => exact ⟨z i, hz i (by omega), ih (by omega)⟩

omit [DecidableEq α] in
theorem hasChain_add (j : ℕ) (hij : i + j ≤ n) (h : HasChain D m (z i)) :
    HasChain D (m + j) (z (i + j)) := by
  induction j with
  | zero => exact h
  | succ j ih => exact ⟨z (i + j), hz (i + j) (by omega), ih (by omega)⟩

omit [DecidableEq α] in
theorem not_hasChain_chain (hend : ¬HasChain D (n + 1) (z n)) (hi : i ≤ n) :
    ¬HasChain D (i + 1) (z i) := by
  intro h
  have hlong := hasChain_add hz (n - i) (by omega) h
  rw [show i + 1 + (n - i) = n + 1 by omega, show i + (n - i) = n by omega] at hlong
  exact hend hlong

omit [DecidableEq α] in
theorem chain_mem (hclosed : ∀ k ∈ K, ∀ d ∈ D k, d ∈ K) (hmem : z n ∈ K) (hi : i ≤ n) :
    z i ∈ K := by
  induction hi using Nat.decreasingInduction with
  | self => exact hmem
  | of_succ i hi ih => exact hclosed _ ih _ (hz i hi)

/-- When the nodes of a longest chain are listed after all others of their depth, they are output
after all others of their depth. -/
theorem IsOutput.before_chain (h : IsOutput K D output) (hK : K.Nodup)
    (hend : ¬HasChain D (n + 1) (z n)) (hmem : ∀ i ≤ n, z i ∈ output)
    (hlast : ∀ i ≤ n, ∀ k ∈ K, k ≠ z i → HasChain D i k → ¬HasChain D (i + 1) k →
      Before K k (z i)) (hi : i ≤ n) (hk : k ∈ output) (hne : k ≠ z i)
    (hnot : ¬HasChain D (i + 1) k) : Before output k (z i) := by
  induction i generalizing k with
  | zero =>
    have hready {e : α} (he : ¬HasChain D 1 e) : isReady D [] e = true :=
      isReady_iff.2 fun d hd => absurd ⟨d, hd, trivial⟩ he
    have hbefore := hlast 0 hi k (h.mem_iff.1 hk).1 hne trivial hnot
    exact (hbefore.filter (hready hnot) (hready (not_hasChain_chain hz hend hi))).of_isPrefix
      (h.queued_isPrefix (Nat.zero_le _))
  | succ i ih =>
    by_cases hchain : HasChain D (i + 1) k
    swap
    · exact h.before_of_hasChain hK hk (hmem _ hi) (hasChain_chain hz hi) hchain
    have hout := hmem i (by omega)
    obtain ⟨p, t, hp⟩ := List.append_of_mem hout
    have hnodup := h.nodup hK
    have htake : output.take p.length = p := by rw [hp, List.take_left' rfl]
    have htake' : output.take (p.length + 1) = p ++ [z i] := by
      rw [hp]
      simp [List.take_append]
    have hlength : p.length + 1 ≤ output.length := by
      rw [hp]
      simp
    -- All that the two wait for is output once the chain's node before is output.
    have hready {e : α} (he : e ∈ output) (hnot : ¬HasChain D (i + 1 + 1) e) :
        isReady D (p ++ [z i]) e = true := by
      refine isReady_iff.2 fun d hd => ?_
      by_cases hdz : d = z i
      · simp [hdz]
      have hbefore := ih (by omega) ((h.mem_iff.1 he).2 d hd) hdz fun hc => hnot ⟨d, hd, hc⟩
      rw [hp] at hbefore hnodup
      exact List.mem_append_left _ (hbefore.mem_left hnodup)
    have hnotYet : isReady D p (z (i + 1)) ≠ true := by
      intro hc
      rw [hp] at hnodup
      exact (List.nodup_append'.1 hnodup).2.2 (isReady_iff.1 hc _ (hz i (by omega)))
        List.mem_cons_self
    by_cases hearly : isReady D p k = true
    · exact h.before_of_isReady (n := p.length) (by omega) (h.mem_iff.1 hk).1 (hmem _ hi)
        (by rwa [htake]) (by rwa [htake])
    · have hbefore := hlast (i + 1) hi k (h.mem_iff.1 hk).1 hne hchain hnot
      have hqueued : Before (queued K D output (p.length + 1)) k (z (i + 1)) := by
        refine Before.of_append_right (hbefore.filter ?_ ?_)
        · rw [htake, htake', hready hk hnot]
          simpa using hearly
        · rw [htake, htake', hready (hmem _ hi) (not_hasChain_chain hz hend hi)]
          simpa using hnotYet
      exact hqueued.of_isPrefix (h.queued_isPrefix hlength)

end Last

omit [DecidableEq α] in
theorem exists_chain (h : HasChain D n k) :
    ∃ z : ℕ → α, z n = k ∧ ∀ i < n, z i ∈ D (z (i + 1)) := by
  induction n generalizing k with
  | zero => exact ⟨fun _ => k, rfl, nofun⟩
  | succ n ih =>
    obtain ⟨d, hd, hchain⟩ := h
    obtain ⟨z, hzd, hz⟩ := ih hchain
    refine ⟨fun i => if i ≤ n then z i else k, by simp, fun i hi => ?_⟩
    rcases Nat.lt_succ_iff_lt_or_eq.1 hi with hlt | rfl
    · simpa [hlt.le, Nat.succ_le_of_lt hlt] using hz i hlt
    · simpa [hzd, Nat.not_succ_le_self] using hd

/-- The nodes can be listed so that a given one is output after all others of its depth. -/
theorem exists_last (hK : K.Nodup) (hclosed : ∀ k ∈ K, ∀ d ∈ D k, d ∈ K) (ha : a ∈ K)
    (hchain : HasChain D n a) (hend : ¬HasChain D (n + 1) a) :
    ∃ K', K'.Perm K ∧ ∀ output, IsOutput K' D output → (∀ k ∈ K, k ∈ output) →
      ∀ k ∈ K, k ≠ a → ¬HasChain D (n + 1) k → Before output k a := by
  obtain ⟨z, rfl, hz⟩ := exists_chain hchain
  let last (k : α) : Bool := k ∈ (List.range (n + 1)).map z
  have hlast {i : ℕ} (hi : i ≤ n) : last (z i) = true :=
    decide_eq_true (List.mem_map.2 ⟨i, List.mem_range.2 (by omega), rfl⟩)
  have hperm : (K.filter (fun k => !last k) ++ K.filter last).Perm K := by
    simpa using List.filter_append_perm (fun k => !last k) K
  refine ⟨_, hperm, fun output h hall k hk hne hnot => ?_⟩
  refine h.before_chain hz (hperm.nodup_iff.2 hK) hend
    (fun i hi => hall _ (chain_mem hz hclosed ha hi)) (fun i hi k hk hne hck hnk => ?_) le_rfl
    (hall k hk) hne hnot
  have hkK : k ∈ K := hperm.mem_iff.1 hk
  refine .append (List.mem_filter.2 ⟨hkK, ?_⟩)
    (List.mem_filter.2 ⟨chain_mem hz hclosed ha hi, hlast hi⟩)
  -- A node of the chain is the only one of the chain that has its depth.
  rw [Bool.not_eq_true', decide_eq_false_iff_not]
  intro hmem
  obtain ⟨j, hj, rfl⟩ := List.mem_map.1 hmem
  have hj : j ≤ n := Nat.lt_succ_iff.1 (List.mem_range.1 hj)
  rcases Nat.lt_trichotomy i j with hlt | rfl | hlt
  · exact hnk ((hasChain_chain hz hj).mono hlt)
  · exact hne rfl
  · exact not_hasChain_chain hz hend hj (hck.mono hlt)

/-- In whatever order the nodes are listed, a node is output before another: that is so exactly when
a longer chain of dependencies ends in the other one. -/
theorem forall_before_iff (hK : K.Nodup) (hD : ∀ k, (D k).Nodup)
    (hclosed : ∀ k ∈ K, ∀ d ∈ D k, d ∈ K)
    (hacyclic : ∀ k, ¬TransGen (fun d k => d ∈ D k) k k) (ha : a ∈ K) (hb : b ∈ K) (hab : a ≠ b) :
    (∀ K' : List α, K'.Perm K → Before (sort (K'.map (waiting D []))) a b) ↔
      ∃ n, HasChain D n b ∧ ¬HasChain D n a := by
  have hsort {K' : List α} (hperm : K'.Perm K) : IsOutput K' D (sort (K'.map (waiting D []))) :=
    isOutput_sort (hperm.nodup_iff.2 hK) hD
  have hmem {K' : List α} (hperm : K'.Perm K) {k : α} (hk : k ∈ K) :
      k ∈ sort (K'.map (waiting D [])) := by
    refine (hsort hperm).mem_of_acyclic (fun k hk d hd => ?_) hacyclic (hperm.mem_iff.2 hk)
    exact hperm.mem_iff.2 (hclosed k (hperm.mem_iff.1 hk) d hd)
  constructor
  · intro hall
    have hbounded : ∃ n, ¬HasChain D n b := by
      have hout := hmem (.refl K) hb
      rw [← List.take_length (l := sort (K.map (waiting D [])))] at hout
      exact ⟨_, fun hchain => lt_irrefl _ ((hsort (.refl K)).lt_of_hasChain hchain hout)⟩
    classical
    obtain ⟨n, hn⟩ : ∃ n, Nat.find hbounded = n + 1 :=
      Nat.exists_eq_succ_of_ne_zero fun h0 => by simpa [h0, HasChain] using Nat.find_spec hbounded
    have hchain : HasChain D n b := not_not.1 (Nat.find_min hbounded (by omega))
    have hend : ¬HasChain D (n + 1) b := hn ▸ Nat.find_spec hbounded
    refine ⟨n, hchain, fun hna => ?_⟩
    by_cases hdeeper : HasChain D (n + 1) a
    · have hbefore := (hsort (.refl K)).before_of_hasChain hK (hmem (.refl K) hb)
        (hmem (.refl K) ha) hdeeper hend
      exact hbefore.not_before ((hsort (.refl K)).nodup hK) (hall K (.refl K))
    · obtain ⟨K', hperm, hlast⟩ := exists_last hK hclosed ha hna hdeeper
      have hbefore := hlast _ (hsort hperm) (fun k hk => hmem hperm hk) b hb hab.symm hend
      exact hbefore.not_before ((hsort hperm).nodup (hperm.nodup_iff.2 hK)) (hall K' hperm)
  · rintro ⟨n, hchain, hnot⟩ K' hperm
    exact (hsort hperm).before_of_hasChain (hperm.nodup_iff.2 hK) (hmem hperm ha) (hmem hperm hb)
      hchain hnot

end Kahn
