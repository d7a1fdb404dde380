import GnucashWeb.Lib.Runs
import GnucashWeb.QuickAdd.Queue

/-!
# Sync passes are safe, and live up to re-posts

`held_once` says what every run of the tabs keeps (a transaction is held once, and an item leaves
through a sync only with its transaction held and its tags accepted) and when a run is also live:
exactly when no tab receives an answer to the post of a transaction that the server already held.
-/

open Runs

namespace QuickAdd

/-! ## Storage lemmas -/

namespace Storage

variable {storage : Storage} {localId : List Char} {item i : QueuedQuickAdd}

theorem mem_of_get (h : storage.get localId = some item) :
    item ∈ storage ∧ item.localId = localId :=
  ⟨List.mem_of_find?_eq_some h, by simpa using List.find?_some h⟩

theorem mem_put (h : i ∈ storage.put item) : i = item ∨ i ∈ storage := by
  unfold put at h
  split at h
  · obtain ⟨j, hj, rfl⟩ := List.mem_map.1 h
    split
    · exact .inl rfl
    · exact .inr hj
  · rcases List.mem_append.1 h with h | h
    · exact .inr h
    · exact .inl (List.mem_singleton.1 h)

theorem mem_of_mem_delete (localId : List Char) (h : i ∈ storage.delete localId) : i ∈ storage :=
  List.mem_of_mem_filter h

end Storage

/-! ## The invariant -/

/-- The item has the content that was queued under its `localId`. -/
def Agrees (s : Sys) (item : QueuedQuickAdd) : Prop :=
  s.content item.localId = some (item.payload, item.tagNames)

/-- The server holds a transaction and accepted its tags. -/
def Kept (server : Server) (payload : CreateTransactionRequest) (tagNames : List String) : Prop :=
  payload.guid ∈ server.transactions ∧
    (tagNames ≠ [] → (payload.guid, tagNames) ∈ server.tagged)

/-- A message is the post of a transaction or the answer to it. -/
def Message.OfPost (request : CreateTransactionRequest) : Message → Prop
  | .post r => r = request
  | .answer guid _ _ => guid = request.guid
  | _ => False

/-- A message sets the tags of a transaction or answers that. -/
def Message.OfTags (guid : List Char) (tags : List String) : Message → Prop
  | .putTags g t => g = guid ∧ t = tags
  | .tagsAnswer g t _ => g = guid ∧ t = tags
  | _ => False

def PhaseInv (s : Sys) : Phase → Prop
  | .idle | .looping _ => True
  | .marking _ _ _ after => ∀ current rest, after = .post current rest → Agrees s current
  | .putting item after =>
    Agrees s item ∧ ∀ current rest, after = .post current rest → Agrees s current
  | .posting current _ => Agrees s current
  | .posted ticket current _ =>
    Agrees s current ∧ ∃ m ∈ s.mail ticket, m.OfPost current.payload
  | .tagging current _ => Agrees s current ∧ current.payload.guid ∈ s.server.transactions
  | .tagged ticket current _ =>
    (Agrees s current ∧ current.payload.guid ∈ s.server.transactions) ∧
      ∃ m ∈ s.mail ticket, m.OfTags current.payload.guid current.tagNames
  | .deleting current _ => Agrees s current ∧ Kept s.server current.payload current.tagNames

def MessageInv (server : Server) : Message → Prop
  | .answer guid res reposted =>
    (res.accepted = true ∧ guid ∈ server.transactions ∧ reposted = false) ∨
      ∃ refusal : Refusal, res = refusal.response
  | .tagsAnswer guid tags status =>
    classifyTags status = .synced → (guid, tags) ∈ server.tagged
  | _ => True

structure Inv (s : Sys) : Prop where
  stored : ∀ item ∈ s.storage, Agrees s item
  phases : ∀ tab, PhaseInv s (s.tabs tab)
  messages : ∀ ticket, ∀ m ∈ s.mail ticket, MessageInv s.server m
  nodup : s.server.transactions.Nodup
  /-- What left the queue through a sync was queued and is kept. -/
  left : ∀ localId ∈ s.left, ∃ payload tagNames,
    s.content localId = some (payload, tagNames) ∧ Kept s.server payload tagNames

/-- The content and the server of a state survive in another, and its messages are there or have
been answered. -/
structure Grows (s s' : Sys) : Prop where
  content : ∀ localId, ∀ c ∈ s.content localId, c ∈ s'.content localId
  transactions : s.server.transactions ⊆ s'.server.transactions
  tagged : s.server.tagged ⊆ s'.server.tagged
  ofPost : ∀ ticket request, (∃ m ∈ s.mail ticket, m.OfPost request) →
    ∃ m ∈ s'.mail ticket, m.OfPost request
  ofTags : ∀ ticket guid tags, (∃ m ∈ s.mail ticket, m.OfTags guid tags) →
    ∃ m ∈ s'.mail ticket, m.OfTags guid tags

section Frame

variable {s s' : Sys}

theorem Agrees.grows {item : QueuedQuickAdd} (h : Agrees s item) (hg : Grows s s') :
    Agrees s' item :=
  hg.content _ _ h

theorem Kept.grows {payload : CreateTransactionRequest} {tagNames : List String}
    (h : Kept s.server payload tagNames) (hg : Grows s s') : Kept s'.server payload tagNames :=
  ⟨hg.transactions h.1, fun hne => hg.tagged (h.2 hne)⟩

theorem PhaseInv.grows {p : Phase} (h : PhaseInv s p) (hg : Grows s s') : PhaseInv s' p := by
  cases p with
  | idle | looping rest => trivial
  | marking localId status error after => exact fun c r ha => (h c r ha).grows hg
  | putting item after => exact ⟨h.1.grows hg, fun c r ha => (h.2 c r ha).grows hg⟩
  | posting current rest => exact Agrees.grows h hg
  | posted ticket current rest => exact ⟨h.1.grows hg, hg.ofPost _ _ h.2⟩
  | tagging current rest => exact ⟨h.1.grows hg, hg.transactions h.2⟩
  | tagged ticket current rest =>
    exact ⟨⟨h.1.1.grows hg, hg.transactions h.1.2⟩, hg.ofTags _ _ _ h.2⟩
  | deleting current rest => exact ⟨h.1.grows hg, h.2.grows hg⟩

theorem MessageInv.grows {m : Message} (h : MessageInv s.server m) (hg : Grows s s') :
    MessageInv s'.server m := by
  cases m with
  | answer guid res reposted => exact h.imp (fun h => ⟨h.1, hg.transactions h.2.1, h.2.2⟩) id
  | tagsAnswer guid tags status => exact fun hs => hg.tagged (h hs)
  | post request => trivial
  | putTags guid tags => trivial

theorem Inv.left_grows (h : Inv s) (hg : Grows s s') : ∀ localId ∈ s.left, ∃ payload tagNames,
    s'.content localId = some (payload, tagNames) ∧ Kept s'.server payload tagNames := by
  intro localId hl
  obtain ⟨payload, tagNames, hc, hk⟩ := h.left localId hl
  exact ⟨payload, tagNames, hg.content _ _ hc, hk.grows hg⟩

theorem Grows.of_mail (hm : s'.mail = s.mail) (hc : s'.content = s.content)
    (ht : s.server.transactions ⊆ s'.server.transactions)
    (hg : s.server.tagged ⊆ s'.server.tagged) : Grows s s' :=
  ⟨fun _ _ h => hc ▸ h, ht, hg, fun _ _ h => hm ▸ h, fun _ _ _ h => hm ▸ h⟩

theorem AfterPhase.inv {after : After}
    (h : ∀ current rest, after = .post current rest → Agrees s current) :
    PhaseInv s after.phase := by
  cases after with
  | stop | loop rest => trivial
  | post current rest => exact h current rest rfl

theorem PhaseInv.failed (current : QueuedQuickAdd) (rest error : _) :
    PhaseInv s ((PostResult.failed error).phase current rest) := by
  intro c r h
  cases h

theorem Inv.setPhase (h : Inv s) (tab : ℕ) {p : Phase} (hp : PhaseInv s p) :
    Inv (s.setPhase tab p) := by
  have hg : Grows s (s.setPhase tab p) :=
    .of_mail rfl rfl (List.Subset.refl _) (List.Subset.refl _)
  have hphases : ∀ other, PhaseInv (s.setPhase tab p) ((s.setPhase tab p).tabs other) :=
    (Function.forall_update_iff s.tabs fun _ q => PhaseInv (s.setPhase tab p) q).2
      ⟨hp.grows hg, fun other _ => (h.phases other).grows hg⟩
  exact ⟨fun item hi => (h.stored item hi).grows hg, hphases,
    fun ticket m hm => (h.messages ticket m hm).grows hg, h.nodup, h.left_grows hg⟩

theorem Inv.setStorage (h : Inv s) {storage : Storage} (hs : ∀ item ∈ storage, Agrees s item) :
    Inv { s with storage := storage } := by
  have hg : Grows s { s with storage := storage } :=
    .of_mail rfl rfl (List.Subset.refl _) (List.Subset.refl _)
  exact ⟨fun item hi => (hs item hi).grows hg, fun tab => (h.phases tab).grows hg,
    fun ticket m hm => (h.messages ticket m hm).grows hg, h.nodup, h.left_grows hg⟩

theorem Grows.setMail_new {ticket : ℕ} (m : Message) (hnew : s.mail ticket = none) :
    Grows s (s.setMail ticket m) := by
  have hmail (k : ℕ) (m' : Message) (hm : m' ∈ s.mail k) : m' ∈ (s.setMail ticket m).mail k := by
    have hne : k ≠ ticket := by
      rintro rfl
      rw [hnew] at hm
      cases hm
    exact (Function.update_of_ne hne ..).trans hm
  exact ⟨fun _ _ h => h, List.Subset.refl _, List.Subset.refl _,
    fun k _ ⟨m', hm, ho⟩ => ⟨m', hmail k m' hm, ho⟩,
    fun k _ _ ⟨m', hm, ho⟩ => ⟨m', hmail k m' hm, ho⟩⟩

theorem Grows.serve {ticket : ℕ} {m m' : Message} {server : Server}
    (hm : s.mail ticket = some m)
    (hpost : ∀ request, m.OfPost request → m'.OfPost request)
    (htags : ∀ guid tags, m.OfTags guid tags → m'.OfTags guid tags)
    (ht : s.server.transactions ⊆ server.transactions) (hg : s.server.tagged ⊆ server.tagged) :
    Grows s { s.setMail ticket m' with server := server } := by
  have hmail (P : Message → Prop) (hP : P m → P m') (k : ℕ) (h : ∃ a ∈ s.mail k, P a) :
      ∃ a ∈ (s.setMail ticket m').mail k, P a := by
    by_cases heq : k = ticket
    · subst heq
      obtain ⟨a, ha, hPa⟩ := h
      rw [hm] at ha
      cases ha
      exact ⟨m', Function.update_self .., hP hPa⟩
    · obtain ⟨a, ha, hPa⟩ := h
      exact ⟨a, (Function.update_of_ne heq ..).trans ha, hPa⟩
  exact ⟨fun _ _ h => h, ht, hg, fun k r => hmail _ (hpost r) k,
    fun k g t => hmail _ (htags g t) k⟩

theorem Inv.serve (h : Inv s) {ticket : ℕ} {m : Message} {server : Server}
    (hg : Grows s { s.setMail ticket m with server := server }) (hm : MessageInv server m)
    (hnodup : server.transactions.Nodup) :
    Inv { s.setMail ticket m with server := server } := by
  have hmessages : ∀ k, ∀ a ∈ (s.setMail ticket m).mail k, MessageInv server a := by
    refine (Function.forall_update_iff s.mail fun _ o => ∀ a ∈ o, MessageInv server a).2
      ⟨?_, fun k _ a ha => (h.messages k a ha).grows hg⟩
    rintro a ⟨⟩
    exact hm
  exact ⟨fun item hi => (h.stored item hi).grows hg, fun tab => (h.phases tab).grows hg, hmessages,
    hnodup, h.left_grows hg⟩

end Frame

/-! ## What every step keeps -/

section Steps

variable {s s' : Sys} {tab ticket : ℕ}

theorem nodup_concat {guid : List Char} {l : List (List Char)} (h : l.Nodup) (hg : guid ∉ l) :
    (l ++ [guid]).Nodup := by
  rw [List.nodup_append_comm]
  exact List.nodup_cons.2 ⟨hg, h⟩

theorem Inv.advance (h : Inv s) (hnext : advance tab s = some s') : Inv s' := by
  have hp := h.phases tab
  unfold QuickAdd.advance at hnext
  split at hnext
  case h_1 =>
      cases hnext
      exact h.setPhase tab trivial
  case h_2 localId rest htab =>
      split at hnext
      case h_1 =>
          cases hnext
          exact h.setPhase tab trivial
      case h_2 current hget =>
          split at hnext
          · cases hnext
            exact h.setPhase tab trivial
          · cases hnext
            refine h.setPhase tab ?_
            rintro _ _ ⟨⟩
            exact h.stored current (Storage.mem_of_get hget).1
  case h_3 localId status error after htab =>
      rw [htab] at hp
      split at hnext
      case h_1 =>
          cases hnext
          exact h.setPhase tab (AfterPhase.inv hp)
      case h_2 item hget =>
          cases hnext
          exact h.setPhase tab ⟨h.stored item (Storage.mem_of_get hget).1, hp⟩
  case h_4 item after htab =>
      rw [htab] at hp
      cases hnext
      refine (h.setPhase tab (AfterPhase.inv hp.2)).setStorage fun i hi => ?_
      rcases Storage.mem_put hi with rfl | hi
      · exact hp.1
      · exact h.stored i hi
  case h_5 current rest htab =>
      rw [htab] at hp
      cases hnext
      have hbase := (h.setPhase tab (show PhaseInv s (.looping rest) from trivial)).setStorage
        fun i hi => h.stored i (Storage.mem_of_mem_delete current.localId hi)
      refine ⟨hbase.stored, hbase.phases, hbase.messages, hbase.nodup, ?_⟩
      intro localId hl
      rcases List.mem_append.1 hl with hl | hl
      · exact h.left localId hl
      · cases List.mem_singleton.1 hl
        exact ⟨_, _, hp⟩
  case h_6 => cases hnext

theorem Inv.send (h : Inv s) (hnext : send tab ticket s = some s') : Inv s' := by
  have hp := h.phases tab
  unfold QuickAdd.send at hnext
  split at hnext
  case isFalse => cases hnext
  case isTrue hnew =>
      have hsent (m : Message) (hm : MessageInv s.server m) : Inv (s.setMail ticket m) :=
        h.serve (.setMail_new m hnew) hm h.nodup
      have hmail (m : Message) : m ∈ (s.setMail ticket m).mail ticket := Function.update_self ..
      split at hnext
      case h_1 current rest htab =>
          rw [htab] at hp
          cases hnext
          exact (hsent (.post current.payload) trivial).setPhase tab ⟨hp, _, hmail _, rfl⟩
      case h_2 current rest htab =>
          rw [htab] at hp
          cases hnext
          exact (hsent (.putTags current.payload.guid current.tagNames) trivial).setPhase tab
            ⟨hp, _, hmail _, rfl, rfl⟩
      case h_3 => cases hnext

theorem Inv.servePost (h : Inv s) {fate : Fate} (hnext : servePost ticket fate s = some s') :
    Inv s' := by
  unfold QuickAdd.servePost at hnext
  split at hnext
  case h_2 => cases hnext
  case h_1 request hmail =>
      cases hnext
      have hserver : s.server.transactions ⊆ (POST fate request s.server).2.transactions ∧
          s.server.tagged ⊆ (POST fate request s.server).2.tagged ∧
          (POST fate request s.server).2.transactions.Nodup := by
        rcases POST_server fate request s.server with heq | ⟨hnew, heq⟩
        · rw [heq]
          exact ⟨List.Subset.refl _, List.Subset.refl _, h.nodup⟩
        · rw [heq]
          exact ⟨List.subset_append_left .., List.Subset.refl _, nodup_concat h.nodup hnew⟩
      obtain ⟨htransactions, htagged, hnodup⟩ := hserver
      refine h.serve (.serve hmail ?_ (fun _ _ => False.elim) htransactions htagged) ?_ hnodup
      · rintro _ rfl
        rfl
      · rcases POST_cases fate request s.server with ⟨hacc, hnew, hheld⟩ | hrefusal
        · exact .inl ⟨hacc, hheld, decide_eq_false hnew⟩
        · exact .inr hrefusal

theorem Inv.serveTags (h : Inv s) {fate : TagFate} (hnext : serveTags ticket fate s = some s') :
    Inv s' := by
  unfold QuickAdd.serveTags at hnext
  split at hnext
  case h_2 => cases hnext
  case h_1 guid tags hmail =>
      cases hnext
      have hserver : (PUT fate guid tags s.server).2.transactions = s.server.transactions ∧
          s.server.tagged ⊆ (PUT fate guid tags s.server).2.tagged ∧
          (classifyTags (PUT fate guid tags s.server).1 = .synced →
            (guid, tags) ∈ (PUT fate guid tags s.server).2.tagged) := by
        rcases PUT_cases fate guid tags s.server with ⟨heq, hne⟩ | heq
        · rw [heq]
          exact ⟨rfl, List.Subset.refl _, fun hs => absurd hs hne⟩
        · rw [heq]
          exact ⟨rfl, List.subset_append_left .., fun _ => by simp⟩
      obtain ⟨htransactions, htagged, hanswer⟩ := hserver
      exact h.serve (.serve hmail (fun _ => False.elim) (fun _ _ => id)
        (htransactions ▸ List.Subset.refl _) htagged) hanswer (htransactions ▸ h.nodup)

theorem Inv.receive (h : Inv s) {readable : Bool} (hnext : receive tab readable s = some s') :
    Inv s' := by
  have hp := h.phases tab
  unfold QuickAdd.receive at hnext
  split at hnext
  case h_1 ticket current rest htab =>
      rw [htab] at hp
      obtain ⟨hagrees, m, hm, hof⟩ := hp
      split at hnext
      case h_2 => cases hnext
      case h_1 guid res reposted hmail =>
          rw [hmail] at hm
          cases hm
          cases hof
          rcases h.messages _ _ hmail with ⟨hacc, hheld, -⟩ | ⟨refusal, rfl⟩
          · rw [if_pos hacc] at hnext
            cases hnext
            refine h.setPhase tab ?_
            by_cases hne : current.tagNames = []
            · rw [if_pos hne]
              exact ⟨hagrees, hheld, fun hn => absurd hne hn⟩
            · rw [if_neg hne]
              exact ⟨hagrees, hheld⟩
          · obtain ⟨error, herror⟩ := classify_response refusal readable
            rw [if_neg (by simp [not_accepted_response]), herror] at hnext
            cases hnext
            exact h.setPhase tab (.failed current rest error)
  case h_2 ticket current rest htab =>
      rw [htab] at hp
      obtain ⟨⟨hagrees, hheld⟩, m, hm, hof⟩ := hp
      split at hnext
      case h_2 => cases hnext
      case h_1 guid tags status hmail =>
          rw [hmail] at hm
          cases hm
          obtain ⟨rfl, rfl⟩ := hof
          have htags := h.messages _ _ hmail
          cases hnext
          cases hresult : classifyTags status with
          | synced => exact h.setPhase tab ⟨hagrees, hheld, fun _ => htags hresult⟩
          | failed error => exact h.setPhase tab (.failed current rest error)
  case h_3 => cases hnext

theorem Inv.giveUp (h : Inv s) {error : List Char} (hnext : giveUp tab error s = some s') :
    Inv s' := by
  unfold QuickAdd.giveUp at hnext
  split at hnext
  case h_5 => cases hnext
  all_goals
    cases hnext
    exact h.setPhase tab (.failed _ _ error)

theorem Inv.enqueue (h : Inv s) {localId : List Char} {createdAt : ℕ}
    {payload : CreateTransactionRequest} {tagNames : List String}
    (hnew : s.content localId = none) :
    Inv { s with
      storage := s.storage.put ⟨localId, createdAt, payload, tagNames, .pending, none⟩
      content := Function.update s.content localId (some (payload, tagNames)) } := by
  have hcontent (k : List Char) (c) (hc : c ∈ s.content k) :
      c ∈ Function.update s.content localId (some (payload, tagNames)) k := by
    have hne : k ≠ localId := by
      rintro rfl
      rw [hnew] at hc
      cases hc
    exact (Function.update_of_ne hne ..).trans hc
  have hg : Grows s { s with
      storage := s.storage.put ⟨localId, createdAt, payload, tagNames, .pending, none⟩
      content := Function.update s.content localId (some (payload, tagNames)) } :=
    ⟨hcontent, List.Subset.refl _, List.Subset.refl _, fun _ _ => id, fun _ _ _ => id⟩
  refine ⟨fun i hi => ?_, fun tab => (h.phases tab).grows hg,
    fun ticket m hm => (h.messages ticket m hm).grows hg, h.nodup, h.left_grows hg⟩
  rcases Storage.mem_put hi with rfl | hi
  · exact Function.update_self ..
  · exact (h.stored i hi).grows hg

theorem Inv.record (h : Inv s) {guid : List Char} (hnew : guid ∉ s.server.transactions) :
    Inv { s with server := { s.server with
      transactions := s.server.transactions ++ [guid] } } := by
  have hg : Grows s { s with server := { s.server with
      transactions := s.server.transactions ++ [guid] } } :=
    .of_mail rfl rfl (List.subset_append_left ..) (List.Subset.refl _)
  exact ⟨fun i hi => (h.stored i hi).grows hg, fun tab => (h.phases tab).grows hg,
    fun ticket m hm => (h.messages ticket m hm).grows hg, nodup_concat h.nodup hnew,
    h.left_grows hg⟩

theorem inv_next (l : Step) (s s' : Sys) (hnext : next l s = some s') (h : Inv s) : Inv s' := by
  cases l with
  | enqueue localId createdAt payload tagNames =>
    obtain ⟨hnew, heq⟩ := Option.ite_none_right_eq_some.1 hnext
    cases heq
    exact h.enqueue hnew
  | remove localId =>
    cases hnext
    exact h.setStorage fun i hi => h.stored i (Storage.mem_of_mem_delete localId hi)
  | mark tab localId status error =>
    obtain ⟨_, heq⟩ := Option.ite_none_right_eq_some.1 hnext
    cases heq
    refine h.setPhase tab ?_
    rintro _ _ ⟨⟩
  | syncAll tab includeFailed =>
    obtain ⟨_, heq⟩ := Option.ite_none_right_eq_some.1 hnext
    cases heq
    exact h.setPhase tab trivial
  | advance tab => exact h.advance hnext
  | send tab ticket => exact h.send hnext
  | servePost ticket fate => exact h.servePost hnext
  | serveTags ticket fate => exact h.serveTags hnext
  | receive tab readable => exact h.receive hnext
  | giveUp tab error => exact h.giveUp hnext
  | close tab =>
    cases hnext
    exact h.setPhase tab trivial
  | record guid =>
    obtain ⟨hnew, heq⟩ := Option.ite_none_left_eq_some.1 hnext
    cases heq
    exact h.record hnew

end Steps

/-! ## Live runs -/

/-- Whether a tab waits for an answer that has come and is one to a re-post. -/
def Sys.reposted (s : Sys) (tab : ℕ) : Bool :=
  match s.tabs tab with
  | .posted ticket _ _ =>
    match s.mail ticket with
    | some (.answer _ _ reposted) => reposted
    | _ => false
  | _ => false

/-- A pass that receives the answer to a re-post does not go on to mark its item failed. -/
def Live : Step → Sys → Prop
  | .receive tab readable, s =>
    s.reposted tab = true → ∀ t ∈ receive tab readable s, (t.tabs tab).failing = false
  | _, _ => True

/-- No tab receives the answer to a re-post. -/
def Unanswered : Step → Sys → Prop
  | .receive tab _, s => s.reposted tab = false
  | _, _ => True

instance : ∀ l s, Decidable (Unanswered l s)
  | .receive tab _, s => inferInstanceAs (Decidable (s.reposted tab = false))
  | .enqueue _ _ _ _, _ | .remove _, _ | .mark _ _ _ _, _ | .syncAll _ _, _ | .advance _, _
  | .send _ _, _ | .servePost _ _, _ | .serveTags _ _, _ | .giveUp _ _, _ | .close _, _
  | .record _, _ => isTrue trivial

theorem failing_of_reposted {s : Sys} (h : Inv s) {tab : ℕ} (readable : Bool)
    (hrepost : s.reposted tab = true) :
    ∃ t, receive tab readable s = some t ∧ (t.tabs tab).failing = true := by
  unfold Sys.reposted at hrepost
  split at hrepost
  case h_2 => cases hrepost
  case h_1 ticket current rest htab =>
      split at hrepost
      case h_2 => cases hrepost
      case h_1 guid res reposted hmail =>
          rcases h.messages _ _ hmail with ⟨-, -, hfalse⟩ | ⟨refusal, rfl⟩
          · rw [hfalse] at hrepost
            cases hrepost
          · obtain ⟨error, herror⟩ := classify_response refusal readable
            unfold receive
            simp only [htab, hmail, not_accepted_response, Bool.false_eq_true, if_false, herror]
            refine ⟨_, rfl, ?_⟩
            rw [show ((s.setPhase tab _).tabs tab) = _ from Function.update_self ..]
            rfl

theorem live_iff {s : Sys} (h : Inv s) (l : Step) : Live l s ↔ Unanswered l s := by
  cases l with
  | receive tab readable =>
    constructor
    · intro hlive
      by_contra hne
      have hrepost : s.reposted tab = true := by simpa [Unanswered] using hne
      obtain ⟨t, ht, hfailing⟩ := failing_of_reposted h readable hrepost
      have hfalse := hlive hrepost t ht
      rw [hfalse] at hfailing
      cases hfailing
    · intro hun hrepost
      have hfalse : s.reposted tab = false := hun
      rw [hfalse] at hrepost
      cases hrepost
  | _ => exact Iff.rfl

/-! ## Runs from a queue at rest -/

/-- No tab runs, no message is on its way, and the server holds no transaction twice. -/
structure Started (s : Sys) : Prop where
  idle : ∀ tab, s.tabs tab = .idle
  silent : ∀ ticket, s.mail ticket = none
  queued : ∀ item ∈ s.storage, Agrees s item
  distinct : s.server.transactions.Nodup
  stayed : s.left = []

theorem Started.inv {s : Sys} (h : Started s) : Inv s where
  stored := h.queued
  phases tab := by
    rw [h.idle tab]
    trivial
  messages ticket m hm := by
    rw [h.silent ticket] at hm
    cases hm
  nodup := h.distinct
  left := by simp [h.stayed]

/-- In every run the server holds a transaction once and an item leaves through a sync only when it
is kept; the run is live exactly when no tab receives the answer to a re-post. -/
theorem held_once {steps : List Step} {s s' : Sys} (hstart : Started s)
    (hrun : run next steps s = some s') :
    s'.server.transactions.Nodup ∧
      (∀ localId ∈ s'.left, ∃ payload tagNames,
        s'.content localId = some (payload, tagNames) ∧ Kept s'.server payload tagNames) ∧
      (Along next Live steps s ↔ Along next Unanswered steps s) := by
  have hinv : Inv s' := invariant inv_next hrun hstart.inv
  refine ⟨hinv.nodup, hinv.left, ?_⟩
  exact along_congr inv_next (fun l s h => live_iff h l) steps hstart.inv

def dinner : CreateTransactionRequest := ⟨List.replicate 32 'a', by decide⟩

/-- One pending item and a server that holds nothing. -/
def offline : Sys where
  storage := [⟨['q'], 0, dinner, ["trip"], .pending, none⟩]
  tabs _ := .idle
  mail _ := none
  server := ⟨[], []⟩
  content localId := if localId = ['q'] then some (dinner, ["trip"]) else none
  left := []

theorem started_offline : Started offline where
  idle _ := rfl
  silent _ := rfl
  queued item hi := by
    cases List.mem_singleton.1 hi
    rfl
  distinct := List.nodup_nil
  stayed := rfl

def onlinePass : List Step :=
  [.syncAll 0 false, .advance 0, .advance 0, .advance 0, .send 0 0, .servePost 0 .created,
    .receive 0 true, .send 0 1, .serveTags 1 .accepted, .receive 0 true, .advance 0]

/-- A pass that loses the answer to its post, and a second one that posts again. -/
def lostAnswer : List Step :=
  [.syncAll 0 false, .advance 0, .advance 0, .advance 0, .send 0 0, .servePost 0 .created,
    .giveUp 0 "Failed to fetch".toList, .advance 0, .advance 0, .advance 0,
    .syncAll 0 true, .advance 0, .advance 0, .advance 0, .send 0 1, .servePost 1 .created,
    .receive 0 true, .advance 0, .advance 0]

def afterPass : Sys := (run next onlinePass offline).getD offline

def afterLoss : Sys := (run next lostAnswer offline).getD offline

theorem run_onlinePass : run next onlinePass offline = some afterPass := by
  have hsome : (run next onlinePass offline).isSome := by decide +kernel
  obtain ⟨s, hs⟩ := Option.isSome_iff_exists.1 hsome
  rw [afterPass, hs, Option.getD_some]

theorem run_lostAnswer : run next lostAnswer offline = some afterLoss := by
  have hsome : (run next lostAnswer offline).isSome := by decide +kernel
  obtain ⟨s, hs⟩ := Option.isSome_iff_exists.1 hsome
  rw [afterLoss, hs, Option.getD_some]

/-- The item of the first pass is gone, and it is kept. -/
theorem held_once_onlinePass :
    afterPass.left = [['q']] ∧ afterPass.server.transactions.Nodup ∧
      (Along next Live onlinePass offline ↔ Along next Unanswered onlinePass offline) :=
  have h := held_once started_offline run_onlinePass
  ⟨by decide +kernel, h.1, h.2.2⟩

/-- After the lost answer the item stays, marked failed, with its transaction on the server. -/
theorem failed_of_lost_answer :
    (afterLoss.storage.map QueuedQuickAdd.status = [.failed] ∧
      afterLoss.server.transactions = [dinner.guid]) ∧
    ¬∀ (steps : List Step) (s s' : Sys), Started s → run next steps s = some s' →
      s'.server.transactions.Nodup ∧
        (∀ localId ∈ s'.left, ∃ payload tagNames,
          s'.content localId = some (payload, tagNames) ∧ Kept s'.server payload tagNames) ∧
        Along next Live steps s := by
  refine ⟨by decide +kernel, fun h => ?_⟩
  have hlive := (h lostAnswer offline afterLoss started_offline run_lostAnswer).2.2
  have hun := (along_congr inv_next (fun l s hi => live_iff hi l) lostAnswer
    started_offline.inv).1 hlive
  exact absurd hun (by decide +kernel)

end QuickAdd
