import GnucashWeb.Lib.Joined
import GnucashWeb.Lib.Json

/-!
# Transaction snapshots

The comparison of two snapshots of a transaction, by which an undo refuses to discard later edits.
Each split is joined to one text, so that a snapshot is told apart from every other exactly when no
text of its splits has the separator (`transactionSnapshotsEqual_exact_iff`).
-/

namespace Audit

open Joined

/-! ## Snapshots -/

/-- A text that is not empty: a date or a guid. -/
abbrev Given := {text : String // text ≠ ""}

structure SplitSnapshot where
  guid : String
  accountGuid : String
  memo : String
  action : String
  reconcileState : String
  reconcileDate : Option Given
  valueNum : String
  valueDenom : String
  quantityNum : String
  quantityDenom : String
  lotGuid : Option Given
deriving DecidableEq

structure TransactionSnapshot where
  guid : String
  currencyGuid : String
  num : String
  postDate : Option String
  enterDate : Option String
  description : Option String
  splits : List SplitSnapshot
deriving DecidableEq

/-- `?? ''`. -/
def orEmpty (text : Option Given) : String := (text.map Subtype.val).getD ""

/-- The texts that `canonSplit` joins. -/
def SplitSnapshot.texts (s : SplitSnapshot) : List String :=
  [s.guid, s.accountGuid, s.memo, s.action, s.reconcileState, orEmpty s.reconcileDate, s.valueNum,
    s.valueDenom, s.quantityNum, s.quantityDenom, orEmpty s.lotGuid]

def canonSplit (s : SplitSnapshot) : String :=
  String.ofList (joined '|' (s.texts.map String.toList))

def beforeField (text : String) : List Char := text.toList

/-- The JSON text of the fields that are compared, with the splits sorted. -/
def canon (t : TransactionSnapshot) : List Char :=
  beforeField "\x7b\"guid\":" ++ (Json.quote t.guid ++
    (beforeField ",\"currency_guid\":" ++ (Json.quote t.currencyGuid ++
      (beforeField ",\"num\":" ++ (Json.quote t.num ++
        (beforeField ",\"post_date\":" ++ (Json.nullable t.postDate ++
          (beforeField ",\"enter_date\":" ++ (Json.nullable t.enterDate ++
            (beforeField ",\"description\":" ++ (Json.nullable t.description ++
              (beforeField ",\"splits\":" ++
                (Json.array ((t.splits.map canonSplit).insertionSort (· ≤ ·)) ++
                  ['\x7d'])))))))))))))

def transactionSnapshotsEqual (a b : TransactionSnapshot) : Bool := canon a = canon b

theorem insertionSort_eq_iff_perm {l m : List String} :
    l.insertionSort (· ≤ ·) = m.insertionSort (· ≤ ·) ↔ l.Perm m := by
  refine ⟨fun h => ?_, fun h => ?_⟩
  · exact (List.perm_insertionSort _ l).symm.trans (h ▸ List.perm_insertionSort _ m)
  · refine List.Perm.eq_of_pairwise (fun a b _ _ hab hba => le_antisymm hab hba)
      (List.pairwise_insertionSort _ l) (List.pairwise_insertionSort _ m) ?_
    exact (List.perm_insertionSort _ l).trans (h.trans (List.perm_insertionSort _ m).symm)

/-- The fields of a transaction besides its splits. -/
structure SameHeader (a b : TransactionSnapshot) : Prop where
  guid : a.guid = b.guid
  currencyGuid : a.currencyGuid = b.currencyGuid
  num : a.num = b.num
  postDate : a.postDate = b.postDate
  enterDate : a.enterDate = b.enterDate
  description : a.description = b.description

theorem transactionSnapshotsEqual_iff {a b : TransactionSnapshot} :
    transactionSnapshotsEqual a b = true ↔
      SameHeader a b ∧ (a.splits.map canonSplit).Perm (b.splits.map canonSplit) := by
  simp only [transactionSnapshotsEqual, decide_eq_true_eq, canon, List.append_cancel_left_eq,
    Json.quote_append_inj, Json.nullable_append_inj, Json.array_append_inj,
    insertionSort_eq_iff_perm, and_true]
  constructor
  · rintro ⟨h₁, h₂, h₃, h₄, h₅, h₆, h⟩
    exact ⟨⟨h₁, h₂, h₃, h₄, h₅, h₆⟩, h⟩
  · rintro ⟨⟨h₁, h₂, h₃, h₄, h₅, h₆⟩, h⟩
    exact ⟨h₁, h₂, h₃, h₄, h₅, h₆, h⟩

/-! ## Splits with one text -/

theorem orEmpty_injective : Function.Injective orEmpty := by
  rintro (_ | s) (_ | t) h
  · rfl
  · exact absurd h.symm t.property
  · exact absurd h s.property
  · exact congrArg some (Subtype.ext h)

theorem texts_injective : Function.Injective SplitSnapshot.texts := by
  intro s t h
  simp only [SplitSnapshot.texts, List.cons.injEq, and_true, orEmpty_injective.eq_iff] at h
  cases s
  cases t
  simpa using h

theorem exists_texts_eq {texts : List String} (h : texts.length = 11) :
    ∃ s : SplitSnapshot, s.texts = texts := by
  have hor (text : String) : ∃ given, orEmpty given = text := by
    by_cases htext : text = ""
    · exact ⟨none, htext.symm⟩
    · exact ⟨some ⟨text, htext⟩, rfl⟩
  match texts, h with
  | [guid, account, memo, action, state, date, num, denom, qnum, qdenom, lot], _ =>
    obtain ⟨reconcileDate, hdate⟩ := hor date
    obtain ⟨lotGuid, hlot⟩ := hor lot
    exact ⟨⟨guid, account, memo, action, state, reconcileDate, num, denom, qnum, qdenom, lotGuid⟩,
      by rw [SplitSnapshot.texts, hdate, hlot]⟩

/-- No text of the split has the separator. -/
def Barless (s : SplitSnapshot) : Prop := ∀ text ∈ s.texts, '|' ∉ text.toList

theorem canonSplit_eq_iff {s t : SplitSnapshot} : canonSplit s = canonSplit t ↔
    joined '|' (s.texts.map String.toList) = joined '|' (t.texts.map String.toList) :=
  String.ofList_inj

theorem eq_of_canonSplit_eq {s t : SplitSnapshot} (ht : Barless t)
    (h : canonSplit s = canonSplit t) : s = t := by
  have hjoined := eq_of_joined_eq (l := t.texts.map String.toList) (m := s.texts.map String.toList)
    rfl (by simpa [Barless] using ht) (canonSplit_eq_iff.1 h).symm
  exact texts_injective ((List.map_injective_iff.2 (fun _ _ => String.toList_injective) hjoined).symm)

theorem exists_canonSplit_eq {t : SplitSnapshot} (ht : ¬Barless t) :
    ∃ s, s ≠ t ∧ canonSplit s = canonSplit t := by
  obtain ⟨text, htext, hbar⟩ : ∃ text ∈ t.texts, '|' ∈ text.toList := by
    simpa [Barless] using ht
  obtain ⟨m, hlength, hne, hjoined⟩ :=
    exists_joined_eq (l := t.texts.map String.toList) (by simp [SplitSnapshot.texts])
      (List.mem_map_of_mem htext) hbar
  have hcount : (m.map String.ofList).length = 11 := by
    rw [List.length_map, hlength, List.length_map]
    rfl
  obtain ⟨s, hs⟩ := exists_texts_eq hcount
  have htexts : s.texts.map String.toList = m := by simp [hs, Function.comp_def]
  refine ⟨s, fun h => hne ?_, canonSplit_eq_iff.2 ?_⟩
  · rw [← htexts, h]
  · rw [htexts, hjoined]

theorem perm_of_canonSplits {l m : List SplitSnapshot} (hm : ∀ t ∈ m, Barless t)
    (h : (l.map canonSplit).Perm (m.map canonSplit)) : l.Perm m := by
  induction l generalizing m with
  | nil => rw [List.map_eq_nil_iff.1 (List.nil_perm.1 h)]
  | cons s l ih =>
    obtain ⟨t, ht, htext⟩ := List.mem_map.1 (h.subset List.mem_cons_self)
    obtain rfl : s = t := eq_of_canonSplit_eq (hm t ht) htext.symm
    have hmove := List.perm_cons_erase ht
    refine (List.Perm.cons s (ih (fun t h => hm t (List.mem_of_mem_erase h)) ?_)).trans hmove.symm
    exact (h.trans (hmove.map canonSplit)).cons_inv

/-- Two snapshots of one state of a transaction. -/
structure Agree (a b : TransactionSnapshot) : Prop extends SameHeader a b where
  splits : a.splits.Perm b.splits

/-- A snapshot is compared with every other exactly when no text of its splits has the separator. -/
theorem transactionSnapshotsEqual_exact_iff (b : TransactionSnapshot) :
    (∀ a, transactionSnapshotsEqual a b = true ↔ Agree a b) ↔ ∀ s ∈ b.splits, Barless s := by
  constructor
  · intro hexact s hs
    by_contra hbar
    obtain ⟨s', hne, htext⟩ := exists_canonSplit_eq hbar
    obtain ⟨before, after, hsplits⟩ := List.append_of_mem hs
    have hequal : transactionSnapshotsEqual { b with splits := before ++ s' :: after } b = true := by
      refine transactionSnapshotsEqual_iff.2 ⟨⟨rfl, rfl, rfl, rfl, rfl, rfl⟩, ?_⟩
      rw [hsplits, List.map_append, List.map_append, List.map_cons, List.map_cons, htext]
    have hperm := ((hexact _).1 hequal).splits
    rw [hsplits, List.perm_append_left_iff] at hperm
    have hone : [s'].Perm [s] := (List.perm_append_right_iff after).1 hperm
    exact hne (List.singleton_perm_singleton.1 hone)
  · intro hbars a
    rw [transactionSnapshotsEqual_iff]
    exact ⟨fun ⟨hheader, hsplits⟩ => ⟨hheader, perm_of_canonSplits hbars hsplits⟩,
      fun h => ⟨h.toSameHeader, h.splits.map canonSplit⟩⟩

/-- A transaction of one split with a memo and an action. -/
def dinner (memo action : String) : TransactionSnapshot :=
  ⟨"t1", "eur", "", none, none, some "Dinner",
    [⟨"s1", "cash", memo, action, "n", none, "-4200", "100", "-4200", "100", none⟩]⟩

/-- A separator that moves from the memo to the action goes unnoticed. -/
theorem transactionSnapshotsEqual_dinner :
    ¬∀ a b, transactionSnapshotsEqual a b = true ↔ Agree a b := by
  intro h
  have hequal : transactionSnapshotsEqual (dinner "Anna|Bob" "") (dinner "Anna" "Bob|") = true := by
    refine transactionSnapshotsEqual_iff.2 ⟨⟨rfl, rfl, rfl, rfl, rfl, rfl⟩, ?_⟩
    have htext : (dinner "Anna|Bob" "").splits.map canonSplit =
        (dinner "Anna" "Bob|").splits.map canonSplit := by decide
    rw [htext]
  have hperm := ((h _ _).1 hequal).splits
  exact absurd (List.singleton_perm_singleton.1 hperm) (by decide)

end Audit
