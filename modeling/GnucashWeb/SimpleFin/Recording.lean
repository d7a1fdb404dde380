import GnucashWeb.SimpleFin.Import

/-!
# Where feed ids are recorded

The two id columns of the meta rows, and what the writes of a sync do to them: a row is appended, or
an id is entered in the row of a transaction.
-/

namespace SimpleFin.Import

open Rows

/-! ## The id columns -/

def Db.firstIds (db : Db) : List String := db.metas.filterMap Meta.simplefinTransactionId

def Db.secondIds (db : Db) : List String := db.metas.filterMap Meta.simplefinTransactionId2

def KeepsIds (db db' : Db) : Prop :=
  ∀ m ∈ db.metas, ∃ m' ∈ db'.metas, m'.transactionGuid = m.transactionGuid ∧
    (∀ id ∈ m.simplefinTransactionId, m'.simplefinTransactionId = some id) ∧
    ∀ id ∈ m.simplefinTransactionId2, m'.simplefinTransactionId2 = some id

instance (db db' : Db) : Decidable (KeepsIds db db') :=
  inferInstanceAs (Decidable (∀ m ∈ db.metas, _))

variable {host : Host} {db db' : Db} {id guid : String} {f : Meta → Meta} {m : Meta}

theorem mem_ids {m : Meta} :
    id ∈ m.ids ↔ m.simplefinTransactionId = some id ∨ m.simplefinTransactionId2 = some id := by
  simp [Meta.ids, Option.mem_toList]

theorem mem_firstIds : id ∈ db.firstIds ↔ ∃ m ∈ db.metas, m.simplefinTransactionId = some id := by
  simp [Db.firstIds]

theorem mem_secondIds :
    id ∈ db.secondIds ↔ ∃ m ∈ db.metas, m.simplefinTransactionId2 = some id := by
  simp [Db.secondIds]

theorem notMem_ids (h₁ : id ∉ db.firstIds) (h₂ : id ∉ db.secondIds) {m : Meta} (hm : m ∈ db.metas) :
    id ∉ m.ids := by
  rw [mem_ids]
  rintro (h | h)
  · exact h₁ (mem_firstIds.2 ⟨m, hm, h⟩)
  · exact h₂ (mem_secondIds.2 ⟨m, hm, h⟩)

theorem eq_of_checkIndex (h : checkIndex host db = some db') : db' = db := by
  unfold checkIndex at h
  split at h
  · cases h
  · exact (Option.some.inj h).symm

/-- The transactions have at most one meta row each. -/
def Keyed (db : Db) : Prop := (db.metas.filterMap Meta.transactionGuid).Nodup

instance (db : Db) : Decidable (Keyed db) := inferInstanceAs (Decidable (List.Nodup _))

/-- Two meta rows are not of one transaction. -/
def Apart (m m' : Meta) : Prop :=
  ∀ g, m.transactionGuid = some g → m'.transactionGuid ≠ some g

instance : Std.Symm Apart := ⟨fun _ _ h g hg hg' => h g hg' hg⟩

theorem Keyed.apart (h : Keyed db) : db.metas.Pairwise Apart := by
  rw [Keyed, List.Nodup, List.pairwise_filterMap] at h
  exact h.imp fun hne g hg hg' => hne g hg g hg' rfl

theorem Keyed.meta?_eq (h : Keyed db) (hm : m ∈ db.metas) (hguid : m.transactionGuid = some guid) :
    db.meta? guid = some m := by
  obtain ⟨m', hm'⟩ : ∃ m', db.meta? guid = some m' :=
    Option.isSome_iff_exists.1 (List.find?_isSome.2 ⟨m, hm, by simpa using hguid⟩)
  have hguid' : m'.transactionGuid = some guid := by simpa using List.find?_some hm'
  rw [hm', Option.some_inj]
  by_contra hne
  exact h.apart.forall (List.mem_of_find?_eq_some hm') hm hne guid hguid' hguid

theorem insertMeta_eq_some (h : insertMeta host m db = some db') :
    db' = { db with metas := db.metas ++ [m] } ∧
      ∀ g, m.transactionGuid = some g → ∀ m' ∈ db.metas, m'.transactionGuid ≠ some g := by
  unfold insertMeta at h
  split at h
  · cases h
  · next hnew =>
      refine ⟨eq_of_checkIndex h, fun g hg m' hm' hg' => hnew ?_⟩
      exact List.mem_filter.2 ⟨hg ▸ hg' ▸ List.mem_map_of_mem hm', by simp [hg]⟩

theorem keyed_insertMeta (h : insertMeta host m db = some db') (hkeys : Keyed db) : Keyed db' := by
  obtain ⟨rfl, hnew⟩ := insertMeta_eq_some h
  rw [Keyed, List.filterMap_append]
  refine List.nodup_append.2 ⟨hkeys, ?_, fun g hg g' hg' => ?_⟩
  · cases hguid : m.transactionGuid <;> simp [hguid]
  · rintro rfl
    obtain ⟨m', hm', hguid'⟩ := List.mem_filterMap.1 hg
    obtain ⟨m'', hm'', hguid⟩ := List.mem_filterMap.1 hg'
    obtain rfl := List.mem_singleton.1 hm''
    exact hnew g hguid m' hm' hguid'

theorem keepsIds_insertMeta (h : insertMeta host m db = some db') : KeepsIds db db' := by
  obtain ⟨rfl, -⟩ := insertMeta_eq_some h
  exact fun m' hm' => ⟨m', List.mem_append_left _ hm', rfl, fun _ h => h, fun _ h => h⟩

theorem mem_firstIds_insertMeta (h : insertMeta host m db = some db') {x : String} :
    x ∈ db'.firstIds ↔ x ∈ db.firstIds ∨ m.simplefinTransactionId = some x := by
  obtain ⟨rfl, -⟩ := insertMeta_eq_some h
  simp [Db.firstIds, List.mem_filterMap]

theorem keyed_updateMetas (hguid : ∀ m, (f m).transactionGuid = m.transactionGuid)
    (hkeys : Keyed db) : Keyed (updateMetas guid f db) := by
  have hcol : (editAt Meta.transactionGuid (some guid) f db.metas).filterMap Meta.transactionGuid =
      db.metas.filterMap Meta.transactionGuid := by
    rw [editAt, List.filterMap_map]
    refine List.filterMap_congr fun m _ => ?_
    simp only [Function.comp_apply]
    split <;> simp [hguid]
  rw [Keyed, updateMetas, hcol]
  exact hkeys

theorem keepsIds_updateMetas (hkeys : Keyed db)
    (hguid : ∀ m, (f m).transactionGuid = m.transactionGuid)
    (hkeep : ∀ m, db.meta? guid = some m →
      (∀ x ∈ m.simplefinTransactionId, (f m).simplefinTransactionId = some x) ∧
        ∀ x ∈ m.simplefinTransactionId2, (f m).simplefinTransactionId2 = some x) :
    KeepsIds db (updateMetas guid f db) := by
  intro m hm
  refine ⟨_, mem_editAt.2 ⟨m, hm, rfl⟩, ?_⟩
  split
  · next h => exact ⟨hguid m, hkeep m (hkeys.meta?_eq hm h)⟩
  · exact ⟨rfl, fun _ h => h, fun _ h => h⟩

theorem mem_firstIds_updateMetas {x : String} (hx : x ∈ (updateMetas guid f db).firstIds) :
    x ∈ db.firstIds ∨ ∃ m ∈ db.metas, (f m).simplefinTransactionId = some x := by
  obtain ⟨m', hm', hx⟩ := mem_firstIds.1 hx
  obtain ⟨m, hm, rfl⟩ := mem_editAt.1 hm'
  split at hx
  · exact .inr ⟨m, hm, hx⟩
  · exact .inl (mem_firstIds.2 ⟨m, hm, hx⟩)

end SimpleFin.Import
