/-
Histories of the service: the actions it went through, newest first, each with
the coroutine that performed it and the state it was performed in.

A history says nothing of why an action was performed.  What is proved of every
history holds whatever the coroutines do.
-/
import ImapGateway.Mailbox.Action
import ImapGateway.Store.Live

namespace ImapGateway
namespace Mailbox

variable (cfg : Config)

structure Happening where
  tid : Tid
  action : Act
  before : Service

def Happening.after (h : Happening) : Service := h.action.exec cfg h.tid h.before

inductive History (s₀ : Service) : List Happening → Service → Prop
  | nil : History s₀ [] s₀
  | cons {hs : List Happening} (h : Happening) :
      History s₀ hs h.before → History s₀ (h :: hs) (h.after cfg)

variable {cfg}

/-- An invariant of the service holds throughout a history. -/
theorem History.invariant {s₀ s : Service} {hs : List Happening} {P : Service → Prop}
    (h : History cfg s₀ hs s) (h₀ : P s₀) (hstep : ∀ t p s, P s → P (Act.exec cfg t p s)) : P s := by
  induction h with
  | nil => exact h₀
  | cons h _ ih => exact hstep h.tid h.action h.before ih

/-- What holds in the final state of every history holds before each happening. -/
theorem History.before_of_mem {s₀ s : Service} {hs : List Happening} (h : History cfg s₀ hs s)
    {x : Happening} (hx : x ∈ hs) : ∃ older, older <:+ hs ∧ History cfg s₀ older x.before := by
  induction h with
  | nil => cases hx
  | @cons hs y hy ih =>
    rcases List.mem_cons.mp hx with rfl | hx
    · exact ⟨hs, List.suffix_cons _ _, hy⟩
    · obtain ⟨older, hsuf, hold⟩ := ih hx
      exact ⟨older, hsuf.trans (List.suffix_cons _ _), hold⟩

/-- The older part of a history is a history. -/
theorem History.suffix {s₀ s : Service} {newer older : List Happening}
    (h : History cfg s₀ (newer ++ older) s) : ∃ s', History cfg s₀ older s' := by
  induction newer generalizing s with
  | nil => exact ⟨s, h⟩
  | cons x newer ih =>
    cases h with
    | cons _ h => exact ih h

/-! ## Publication -/

/-- The listing that publishes here. -/
def Happening.publishing (h : Happening) : Option Listing :=
  if h.action = .publish then h.before.listings h.tid else none

theorem Happening.publishing_eq_some {h : Happening} {l : Listing} :
    h.publishing = some l ↔ h.action = .publish ∧ h.before.listings h.tid = some l := by
  simp [Happening.publishing]

/-- The entries a listing publishes: its own and those of the pins that stay, in
order. -/
def Service.collected (s : Service) (l : Listing) : List Entry :=
  sortEntries (Service.applyPins s.time (s.pinned l.key) l.entries).2

/-- The items of the entries, under the UIDs their keys have in `store`. -/
def itemsOf (store : Store.Db) (key : Key) (entries : List Entry) : List Item :=
  sortItems (entries.map fun e => e.build ((store.liveUid key.1 key.2 e.remoteKey).getD 0))

/-- What the three store calls of a listing come to. -/
theorem Service.reconcile_spec {s : Service} (h : s.store.Ok) (key : Key)
    (keys : List (String × String)) :
    ∃ store watermark,
      Store.Db.Reconciled key.1 key.2 (keys.map (·.1)) s.store store ∧
      (s.reconcile key keys).1 = { s with store := store, watermark := watermark } ∧
      (∀ k ∈ keys.map (·.1), (s.reconcile key keys).2.1.lookup k = store.liveUid key.1 key.2 k) ∧
      (s.reconcile key keys).2.2.2 = store.nextUid key.1 key.2 := by
  have h₁ := h.ensureUids s.nextUidvalidity s.now key.1 key.2 keys
  let s₂ := (s.ensureUids key keys).1.tombstoneMissing key (keys.map (·.1))
  refine ⟨(s₂.store.ensureMailbox s₂.nextUidvalidity key.1 key.2).1, s₂.watermarkAfter key,
    h.reconciled s.nextUidvalidity s₂.nextUidvalidity s.now s.now key.1 key.2 keys, ?_,
    fun k hk => ?_, ?_⟩
  · simp only [Service.reconcile, Service.mailboxInfo, Service.tombstoneMissing, Service.ensureUids,
      s₂]
  · show (s.store.ensureUids s.nextUidvalidity s.now key.1 key.2 keys).2.lookup k = _
    rw [Store.Db.ensureUids_lookup, (Store.Db.ensureMailbox_sameLive _ _ _ _ _ _).1]
    show _ = (((s.store.ensureUids s.nextUidvalidity s.now key.1 key.2 keys).1.tombstoneMissing
      s.now key.1 key.2 (keys.map (·.1))).liveUid key.1 key.2 k)
    rw [h₁.tombstoneMissing_live, if_pos hk]
  · obtain ⟨_, _, _, hn, _, _⟩ :=
      Store.Db.ensureMailbox_spec s₂.store s₂.nextUidvalidity key.1 key.2
    rw [(Store.Db.ensureMailbox_sameLive _ _ _ _ _ _).2, ← hn]
    simp only [Service.reconcile, Service.mailboxInfo, s₂]

/-- The snapshot a listing publishes when it leaves the tables `store`. -/
def Service.publication (s : Service) (l : Listing) (store : Store.Db) (uidvalidity : Nat) :
    Snapshot where
  inboxId := l.key.1
  name := l.key.2
  uidvalidity := uidvalidity
  uidnext := store.nextUid l.key.1 l.key.2
  items := itemsOf store l.key (s.collected l)
  version := s.versions l.key + 1
  syncedAt := s.time
  listing := l.no

/-- Publishing reconciles the mailbox with the collected entries, keeps the pins
that stay, and makes the snapshot the latest. -/
theorem Service.publish_eq {s : Service} {t : Tid} {l : Listing} (h : s.store.Ok)
    (hl : s.listings t = some l) :
    ∃ store watermark uidvalidity,
      Store.Db.Reconciled l.key.1 l.key.2 ((s.collected l).map (·.remoteKey)) s.store store ∧
      s.publish t = { s with
        store := store
        watermark := watermark
        pinned := Function.update s.pinned l.key
          (Service.applyPins s.time (s.pinned l.key) l.entries).1
        versions := Function.update s.versions l.key (s.versions l.key + 1)
        latest := Function.update s.latest l.key (some (s.publication l store uidvalidity))
        listings := Function.update s.listings t none
        published := Function.update s.published t (some (s.publication l store uidvalidity))
        aux := { s.aux with
          shown := s.aux.shown ++
            (s.publication l store uidvalidity).items.map fun item => (l.key, item) } } := by
  let keys := (s.collected l).map fun e => (e.remoteKey, e.remoteId)
  have hkeys : keys.map (·.1) = (s.collected l).map (·.remoteKey) := by
    simp [keys, List.map_map, Function.comp_def]
  obtain ⟨store, watermark, hrec, hrun, hlookup, hnext⟩ := Service.reconcile_spec h l.key keys
  have hitems : (s.collected l).map (fun e =>
      e.build (((s.reconcile l.key keys).2.1.lookup e.remoteKey).getD 0)) =
      (s.collected l).map fun e => e.build ((store.liveUid l.key.1 l.key.2 e.remoteKey).getD 0) := by
    refine List.map_congr_left fun e he => ?_
    rw [hlookup e.remoteKey (by rw [hkeys]; exact List.mem_map_of_mem he)]
  refine ⟨store, watermark, (s.reconcile l.key keys).2.2.1, hkeys ▸ hrec, ?_⟩
  rw [Service.publication, ← hnext, itemsOf, ← hitems]
  have hpublish : s.publish t =
      let snap : Snapshot :=
        { inboxId := l.key.1, name := l.key.2,
          uidvalidity := (s.reconcile l.key keys).2.2.1,
          uidnext := (s.reconcile l.key keys).2.2.2,
          items := sortItems ((s.collected l).map fun e =>
            e.build (((s.reconcile l.key keys).2.1.lookup e.remoteKey).getD 0)),
          version := s.versions l.key + 1, syncedAt := s.time, listing := l.no }
      { (s.reconcile l.key keys).1 with
        pinned := Function.update s.pinned l.key
          (Service.applyPins s.time (s.pinned l.key) l.entries).1
        versions := Function.update s.versions l.key (s.versions l.key + 1)
        latest := Function.update s.latest l.key (some snap)
        listings := Function.update s.listings t none
        published := Function.update s.published t (some snap)
        aux := { s.aux with shown := s.aux.shown ++ snap.items.map fun item => (l.key, item) } } := by
    simp only [Service.publish, hl, Service.collected, keys]
  rw [hpublish, hrun]

theorem Service.publish_none {s : Service} {t : Tid} (hl : s.listings t = none) :
    s.publish t = s := by simp only [Service.publish, hl]

/-! ## Pins -/

variable {s : Service}

/-- A new pin takes the place of the one its key had. -/
theorem Service.mem_pin {key key' : Key} {remoteKey : String} {entry : Entry} {p : Pin} :
    p ∈ (s.pin key remoteKey entry).pinned key' ↔
      (key' = key ∧ p = ⟨remoteKey, s.time + pinTtl, entry⟩) ∨
        (p ∈ s.pinned key' ∧ ¬(key' = key ∧ p.remoteKey = remoteKey)) := by
  by_cases hk : key' = key
  · subst hk
    simp only [Service.pin, Function.update_self, true_and]
    split
    · rename_i hany
      obtain ⟨q, hq, hqk⟩ := List.any_eq_true.mp hany
      have hqk : q.remoteKey = remoteKey := by simpa using hqk
      rw [List.mem_map]
      constructor
      · rintro ⟨r, hr, rfl⟩
        by_cases hrk : r.remoteKey = remoteKey
        · exact .inl (by simp [hrk])
        · rw [if_neg hrk]
          exact .inr ⟨hr, hrk⟩
      · rintro (rfl | ⟨hp, hpk⟩)
        · exact ⟨q, hq, by simp [hqk]⟩
        · exact ⟨p, hp, by simp [hpk]⟩
    · rename_i hany
      have hne : ∀ q ∈ s.pinned key', q.remoteKey ≠ remoteKey := by simpa using hany
      rw [List.mem_append, List.mem_singleton]
      constructor
      · rintro (hp | rfl)
        · exact .inr ⟨hp, hne p hp⟩
        · exact .inl rfl
      · rintro (rfl | ⟨hp, _⟩)
        · exact .inr rfl
        · exact .inl hp
  · simp [Service.pin, hk]

theorem Service.mem_unpin {key key' : Key} {remoteKey : String} {p : Pin} :
    p ∈ (s.unpin key remoteKey).pinned key' ↔
      p ∈ s.pinned key' ∧ ¬(key' = key ∧ p.remoteKey = remoteKey) := by
  by_cases hk : key' = key
  · subst hk
    simp [Service.unpin]
  · simp [Service.unpin, hk]

theorem Service.mem_of_pin {s' : Service} {key key' : Key} {k : String} {e : Entry} {q : Pin}
    (h : s'.pinned = (s.pin key k e).pinned) : q ∈ s'.pinned key' ↔
      (key' = key ∧ q = ⟨k, s.time + pinTtl, e⟩) ∨
        (q ∈ s.pinned key' ∧ ¬(key' = key ∧ q.remoteKey = k)) := by
  rw [h]
  exact Service.mem_pin

theorem Service.mem_of_unpin {s' : Service} {key key' : Key} {k : String} {q : Pin}
    (h : s'.pinned = (s.unpin key k).pinned) : q ∈ s'.pinned key' ↔
      q ∈ s.pinned key' ∧ ¬(key' = key ∧ q.remoteKey = k) := by
  rw [h]
  exact Service.mem_unpin

/-- A pin stays until a listing shows its key or it expires. -/
theorem mem_applyPins {time : Nat} {pins : List Pin} {entries : List Entry} {p : Pin} :
    p ∈ (Service.applyPins time pins entries).1 ↔
      p ∈ pins ∧ p.remoteKey ∉ entries.map (·.remoteKey) ∧ time ≤ p.expires := by
  simp [Service.applyPins, List.mem_filter]

/-- What a listing publishes is what it found and what is pinned besides. -/
theorem mem_collected {l : Listing} {e : Entry} :
    e ∈ s.collected l ↔ e ∈ l.entries ∨
      ∃ p ∈ s.pinned l.key, p.remoteKey ∉ l.entries.map (·.remoteKey) ∧ s.time ≤ p.expires ∧
        p.entry = e := by
  rw [Service.collected, mem_sortEntries]
  simp only [Service.applyPins, List.mem_append, List.mem_map, List.mem_filter, Bool.and_eq_true,
    decide_eq_true_eq]
  constructor
  · rintro (he | ⟨p, ⟨hp, hn, ht⟩, rfl⟩)
    · exact .inl he
    · exact .inr ⟨p, hp, hn, ht, rfl⟩
  · rintro (he | ⟨p, hp, hn, ht, rfl⟩)
    · exact .inl he
    · exact .inr ⟨p, ⟨hp, hn, ht⟩, rfl⟩

/-- Allocating for one key and pinning it. -/
theorem Service.appendCommit_eq (cfg : Config) (h : s.store.Ok) (inboxId : String)
    (created : DraftJson) (rendered : Bytes) :
    ∃ store watermark cache, store.Ok ∧
      Store.Db.Allots inboxId drafts.name [contentKey cfg (orEmpty created.draftId) rendered]
        s.store store ∧
      s.appendCommit cfg inboxId created rendered =
        ({ s with store := store, watermark := watermark, cache := cache } : Service).pin
          (inboxId, drafts.name) (contentKey cfg (orEmpty created.draftId) rendered)
          (draftEntry cfg inboxId created rendered) := by
  let key := contentKey cfg (orEmpty created.draftId) rendered
  let d := (s.store.ensureUids s.nextUidvalidity s.now inboxId drafts.name
    [(key, orEmpty created.draftId)]).1
  have hok : d.Ok := h.ensureUids _ _ _ _ _
  have hal := h.ensureUids_allots s.nextUidvalidity s.now inboxId drafts.name
    [(key, orEmpty created.draftId)]
  let s₁ : Service := { s with store := d, watermark := s.watermarkAfter (inboxId, drafts.name) }
  refine ⟨(d.ensureMailbox s₁.nextUidvalidity inboxId drafts.name).1, _, _,
    hok.ensureMailbox _ _ _, ?_, rfl⟩
  have hrow := Store.Db.ensureMailbox_sameLive d s₁.nextUidvalidity inboxId drafts.name
  refine ⟨fun k u hu => ?_, fun k hk => ?_, fun k u hnone hu => ?_, ?_, fun i n hk => ?_⟩
  · rw [(hrow _ _).1]; exact hal.kept k u hu
  · obtain ⟨u, hu⟩ := hal.live k hk
    exact ⟨u, by rw [(hrow _ _).1]; exact hu⟩
  · rw [(hrow _ _).1] at hu; exact hal.fresh k u hnone hu
  · rw [(hrow _ _).2]; exact hal.next
  · exact (hal.others i n hk).trans (hrow i n)

theorem Service.copyItem_eq (h : s.store.Ok) (t : Tid) (inboxId : String) (item : Item)
    (result : PatchResult) :
    ∃ store watermark, store.Ok ∧
      Store.Db.Allots inboxId trash.name [item.remoteId] s.store store ∧
      s.copyItem t inboxId item result =
        { ({ s.holdLabels inboxId item.remoteId (Service.trashedLabels item result) with
              store := store, watermark := watermark } : Service).pin
            (inboxId, trash.name) item.remoteId
            (Service.trashEntry item (Service.trashedLabels item result)) with
          copied := Function.update s.copied t (s.copied t ++
            [(item.uid, (store.liveUid inboxId trash.name item.remoteId).getD 0)]) } := by
  let d := s.store.ensureUids s.nextUidvalidity s.now inboxId trash.name
    [(item.remoteId, item.remoteId)]
  refine ⟨d.1, s.watermarkAfter (inboxId, trash.name), h.ensureUids _ _ _ _ _,
    h.ensureUids_allots s.nextUidvalidity s.now inboxId trash.name
      [(item.remoteId, item.remoteId)], ?_⟩
  rw [← Store.Db.ensureUids_lookup]
  rfl

/-! ## Collecting -/

/-- The entries a message adds to a listing. -/
def Service.messageEntries (cfg : Config) (s : Service) (l : Listing) (m : MessageJson) :
    List Entry :=
  let labels := (s.effectiveLabels l.inboxId (orEmpty m.messageId) (labelSet m.labels)).1
  if l.mdef.excludeLabels.any (· ∈ labels) then [] else [Service.messageEntry cfg m labels]

/-- A message that was not seen is marked seen and added under the labels to show. -/
theorem Service.collectMessage_unseen (cfg : Config) {s : Service} {t : Tid} {m : MessageJson}
    {l : Listing} (hl : s.listings t = some l) (hseen : orEmpty m.messageId ∉ l.seen) :
    s.collectMessage cfg t m = { s with
      labelOverrides := (s.effectiveLabels l.inboxId (orEmpty m.messageId) (labelSet m.labels)).2
      listings := Function.update s.listings t (some { l with
        seen := l.seen ++ [orEmpty m.messageId]
        entries := l.entries ++ s.messageEntries cfg l m }) } := by
  have hsee : ∀ i id labels, (s.see t (orEmpty m.messageId)).effectiveLabels i id labels =
      s.effectiveLabels i id labels := fun _ _ _ => rfl
  simp only [Service.collectMessage, hl, hseen, if_false, hsee, Service.messageEntries]
  split
  · simp [Service.see, hl]
  · simp [Service.see, Service.addEntry, hl]

/-- A message is passed over, or marked seen and added. -/
theorem Service.collectMessage_cases (cfg : Config) (s : Service) (t : Tid) (m : MessageJson) :
    s.collectMessage cfg t m = s ∨
      ∃ l, s.listings t = some l ∧ orEmpty m.messageId ∉ l.seen ∧
        s.collectMessage cfg t m = { s with
          labelOverrides :=
            (s.effectiveLabels l.inboxId (orEmpty m.messageId) (labelSet m.labels)).2
          listings := Function.update s.listings t (some { l with
            seen := l.seen ++ [orEmpty m.messageId]
            entries := l.entries ++ s.messageEntries cfg l m }) } := by
  cases hl : s.listings t with
  | none => exact .inl (by simp only [Service.collectMessage, hl])
  | some l =>
    by_cases hseen : orEmpty m.messageId ∈ l.seen
    · exact .inl (by simp only [Service.collectMessage, hl, hseen, if_true])
    · exact .inr ⟨l, rfl, hseen, Service.collectMessage_unseen cfg hl hseen⟩

/-! ## What an action can do -/

/-- What an action can do to the UIDs and the pins. -/
inductive UidStep (s s' : Service) (t : Tid) (p : Act) : Prop
  | publish (l : Listing) (hp : p = .publish) (hl : s.listings t = some l)
      (store : Store.Db.Reconciled l.key.1 l.key.2 ((s.collected l).map (·.remoteKey))
        s.store s'.store)
      (pins : s'.pinned = Function.update s.pinned l.key
        (Service.applyPins s.time (s.pinned l.key) l.entries).1)
  | pin (key : Key) (k : String) (e : Entry)
      (store : Store.Db.Allots key.1 key.2 [k] s.store s'.store)
      (pins : s'.pinned = (s.pin key k e).pinned) (he : e.remoteKey = k)
  | unpin (key : Key) (k : String) (hp : p = .unpin key k) (store : s'.store = s.store)
      (pins : s'.pinned = (s.unpin key k).pinned)
  | quiet (store : ∀ i n, Store.Db.SameLive s.store s'.store i n) (pins : s'.pinned = s.pinned)

/-- Settling a PATCH takes it off the record. -/
theorem Service.settlePatch_eq (s : Service) (t : Tid) :
    ∃ heldFrom, s.settlePatch t = { s with
      aux := { s.aux with
        heldFrom := heldFrom
        patches := Function.update s.aux.patches t none } } := by
  rw [Service.settlePatch]
  split
  · exact ⟨_, rfl⟩
  · exact ⟨_, rfl⟩

/-- An action keeps the tables in order, and does to the UIDs what a step can. -/
theorem Act.exec_uidStep (cfg : Config) (t : Tid) (p : Act) {s : Service} (h : s.store.Ok) :
    (p.exec cfg t s).store.Ok ∧ UidStep s (p.exec cfg t s) t p := by
  have quiet : ∀ {s' : Service}, s'.store = s.store → s'.pinned = s.pinned →
      s'.store.Ok ∧ UidStep s s' t p := by
    intro s' hs hp
    refine ⟨hs ▸ h, .quiet (fun i n => ?_) hp⟩
    rw [hs]
    exact ⟨fun _ => rfl, rfl⟩
  cases p with
  | publish =>
    cases hl : s.listings t with
    | none =>
      rw [Act.exec, Service.publish_none hl]
      exact quiet rfl rfl
    | some l =>
      obtain ⟨store, watermark, v, hrec, heq⟩ := Service.publish_eq h hl
      rw [Act.exec, heq]
      exact ⟨hrec.ok, .publish l rfl hl hrec rfl⟩
  | appendCommit inboxId created rendered =>
    obtain ⟨store, watermark, cache, hok, hal, heq⟩ :=
      Service.appendCommit_eq cfg h inboxId created rendered
    rw [Act.exec, heq]
    exact ⟨hok, .pin _ _ _ hal rfl rfl⟩
  | copyItem inboxId item result =>
    obtain ⟨store, watermark, hok, hal, heq⟩ := Service.copyItem_eq h t inboxId item result
    rw [Act.exec, heq]
    obtain ⟨aux, haux⟩ := Service.settlePatch_eq _ t
    rw [haux]
    exact ⟨hok, .pin (inboxId, trash.name) _ _ hal rfl rfl⟩
  | unpin key k => exact ⟨h, .unpin key k rfl rfl rfl⟩
  | setDeleted key uids value =>
    obtain ⟨hm, hu⟩ := Store.Db.setDeleted_tables s.store s.now key.1 key.2
      uids value
    exact ⟨h.of_tables hm hu, .quiet (Store.Db.setDeleted_sameLive _ _ _ _ _ _) rfl⟩
  | mailboxInfo key =>
    exact ⟨h.ensureMailbox _ _ _, .quiet (Store.Db.ensureMailbox_sameLive _ _ _ _) rfl⟩
  | setFlagCommit key item add remove result =>
    obtain ⟨aux, haux⟩ := Service.settlePatch_eq (s.setFlagCommit key item add remove result) t
    rw [Act.exec, haux]
    refine quiet ?_ ?_ <;> simp only [Service.setFlagCommit, Service.replaceItem] <;> split <;>
      (try split) <;> rfl
  | expungeCommit inboxId item result =>
    obtain ⟨aux, haux⟩ := Service.settlePatch_eq (s.expungeCommit inboxId item result) t
    rw [Act.exec, haux]
    exact quiet rfl rfl
  | collectMessage m =>
    rw [Act.exec]
    rcases Service.collectMessage_cases cfg s t m with heq | ⟨l, _, _, heq⟩
    · rw [heq]; exact quiet rfl rfl
    · rw [heq]; exact quiet rfl rfl
  | collectDraft d rendered =>
    refine quiet ?_ ?_ <;> simp only [Act.exec, Service.collectDraft] <;> split <;> rfl
  | reap n => refine quiet ?_ ?_ <;> simp only [Act.exec, Service.reap] <;> split <;> rfl
  | applyPatch => refine quiet ?_ ?_ <;> simp only [Act.exec, Service.applyPatch] <;> split <;> rfl
  | _ => exact quiet rfl rfl

theorem History.storeOk {s₀ s : Service} {hs : List Happening} (h : History cfg s₀ hs s)
    (hok : s₀.store.Ok) : s.store.Ok :=
  h.invariant (P := fun s => s.store.Ok) hok fun t p _ hs => (Act.exec_uidStep cfg t p hs).1

/-- The actions that extend a listing. -/
def Act.collects : Act → Bool
  | see _ | collectMessage _ | collectDraft _ _ => true
  | _ => false

/-- What an action can do to the listings under way. -/
inductive ListingStep (s s' : Service) (t : Tid) (p : Act) : Prop
  | start (inboxId : String) (mdef : MailboxDef) (hp : p = .startListing inboxId mdef)
      (listings : s'.listings = Function.update s.listings t (some ⟨inboxId, mdef,
        s.aux.started + 1, s.store.nextUid inboxId mdef.name, [], []⟩))
      (started : s'.aux.started = s.aux.started + 1)
  | extend (l : Listing) (seen : List String) (entries : List Entry) (hp : p.collects = true)
      (hl : s.listings t = some l)
      (listings : s'.listings = Function.update s.listings t
        (some { l with seen := seen, entries := l.entries ++ entries }))
      (started : s'.aux.started = s.aux.started)
  | stop (hp : p = .publish ∨ p = .dropListing)
      (listings : s'.listings = Function.update s.listings t none)
      (started : s'.aux.started = s.aux.started)
  | quiet (hp : ∀ l, p = .publish → s.listings t ≠ some l) (listings : s'.listings = s.listings)
      (started : s'.aux.started = s.aux.started)

theorem Service.settlePatch_listings (s : Service) (t : Tid) :
    (s.settlePatch t).listings = s.listings ∧ (s.settlePatch t).aux.started = s.aux.started := by
  rw [Service.settlePatch]
  split <;> exact ⟨rfl, rfl⟩

theorem Act.exec_listingStep (cfg : Config) (t : Tid) (p : Act) {s : Service} (h : s.store.Ok) :
    ListingStep s (p.exec cfg t s) t p := by
  have quiet : ∀ {s' : Service}, p ≠ .publish → s'.listings = s.listings →
      s'.aux.started = s.aux.started → ListingStep s s' t p :=
    fun hp hl hs => .quiet (fun _ he => absurd he hp) hl hs
  cases p with
  | startListing inboxId mdef => exact .start inboxId mdef rfl rfl rfl
  | see id =>
    cases hl : s.listings t with
    | none => exact quiet nofun (by simp [Act.exec, Service.see, hl]) rfl
    | some l =>
      refine .extend l (l.seen ++ [id]) [] rfl hl ?_ rfl
      simp [Act.exec, Service.see, hl]
  | collectMessage m =>
    rcases Service.collectMessage_cases cfg s t m with heq | ⟨l, hl, _, heq⟩
    · rw [Act.exec, heq]; exact quiet nofun rfl rfl
    · rw [Act.exec, heq]; exact .extend l _ _ rfl hl rfl rfl
  | collectDraft d rendered =>
    cases hl : s.listings t with
    | none =>
      have heq : s.collectDraft cfg t d rendered = s := by simp only [Service.collectDraft, hl]
      rw [Act.exec, heq]
      exact quiet nofun rfl rfl
    | some l =>
      refine .extend l l.seen [Service.draftEntry cfg l.inboxId d rendered] rfl hl ?_ ?_
      · simp [Act.exec, Service.collectDraft, Service.addEntry, hl]
      · simp only [Act.exec, Service.collectDraft, hl, Service.addEntry]
  | publish =>
    cases hl : s.listings t with
    | none =>
      rw [Act.exec, Service.publish_none hl]
      exact .quiet (fun l _ he => by rw [hl] at he; cases he) rfl rfl
    | some l =>
      obtain ⟨store, watermark, v, _, heq⟩ := Service.publish_eq h hl
      rw [Act.exec, heq]
      exact .stop (.inl rfl) rfl rfl
  | dropListing => exact .stop (.inr rfl) rfl rfl
  | copyItem inboxId item result =>
    obtain ⟨hl, hs⟩ := Service.settlePatch_listings (s.copyItem t inboxId item result) t
    exact quiet nofun hl hs
  | setFlagCommit key item add remove result =>
    obtain ⟨hl, hs⟩ := Service.settlePatch_listings (s.setFlagCommit key item add remove result) t
    refine quiet nofun (hl.trans ?_) (hs.trans ?_) <;>
      simp only [Service.setFlagCommit, Service.replaceItem] <;> split <;> (try split) <;> rfl
  | expungeCommit inboxId item result =>
    obtain ⟨hl, hs⟩ := Service.settlePatch_listings (s.expungeCommit inboxId item result) t
    exact quiet nofun hl hs
  | reap n => refine quiet nofun ?_ ?_ <;> simp only [Act.exec, Service.reap] <;> split <;> rfl
  | applyPatch =>
    refine quiet nofun ?_ ?_ <;> simp only [Act.exec, Service.applyPatch] <;> split <;> rfl
  | _ => exact quiet nofun rfl rfl

end Mailbox
end ImapGateway
