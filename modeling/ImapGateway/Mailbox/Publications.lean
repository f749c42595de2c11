/-
What is published: the entries of a listing and of the pins, as items.

An entry names the same object as its item, and a pinned entry is keyed as a
listed one of its mailbox would be.  So the items of a published snapshot carry
the very keys the store has live UIDs for.
-/
import ImapGateway.Mailbox.Conduct

namespace ImapGateway
namespace Mailbox

variable {cfg : Config} {R : Regime} {s₀ s : Service} {t : Tid} {p : Act} {x y : Happening}
  {hs newer mid older : List Happening}

/-! ## Where entries come from -/

/-- The entries an action adds to the listing `l`. -/
def Act.adds (cfg : Config) (s : Service) (l : Listing) : Act → List Entry
  | collectMessage m => s.messageEntries cfg l m
  | collectDraft d rendered => [Service.draftEntry cfg l.inboxId d rendered]
  | _ => []

/-- The entry an action pins, with its mailbox. -/
def Act.pins (cfg : Config) : Act → Option (Key × Entry)
  | appendCommit inboxId created rendered =>
    some ((inboxId, drafts.name), Service.draftEntry cfg inboxId created rendered)
  | copyItem inboxId item result =>
    some ((inboxId, trash.name), Service.trashEntry item (Service.trashedLabels item result))
  | _ => none

/-- An entry of a listing was there before, or its coroutine has just added it. -/
theorem Act.exec_entries (cfg : Config) (t : Tid) (p : Act) (h : s.store.Ok) {u : Tid}
    {l' : Listing} (hl' : (p.exec cfg t s).listings u = some l') {e : Entry} (he : e ∈ l'.entries) :
    ∃ l, s.listings u = some l ∧ l.inboxId = l'.inboxId ∧ l.mdef = l'.mdef ∧
      (e ∈ l.entries ∨ (u = t ∧ e ∈ p.adds cfg s l)) := by
  have same : s.listings u = some l' → ∃ l, s.listings u = some l ∧ l.inboxId = l'.inboxId ∧
      l.mdef = l'.mdef ∧ (e ∈ l.entries ∨ (u = t ∧ e ∈ p.adds cfg s l)) :=
    fun hl => ⟨l', hl, rfl, rfl, .inl he⟩
  by_cases hc : p.collects = true
  · cases p with
    | see id =>
      cases hl : s.listings t with
      | none =>
        simp only [Act.exec, Service.see, hl, Option.map_none] at hl'
        rcases update_some hl' with ⟨_, he⟩ | ⟨_, he⟩
        · cases he
        · exact same he
      | some l =>
        simp only [Act.exec, Service.see, hl, Option.map_some] at hl'
        rcases update_some hl' with ⟨hu, heq⟩ | ⟨_, heq⟩
        · cases heq
          exact ⟨l, hu ▸ hl, rfl, rfl, .inl he⟩
        · exact same heq
    | collectMessage m =>
      rcases Service.collectMessage_cases cfg s t m with heq | ⟨l, hl, _, heq⟩
      · rw [Act.exec, heq] at hl'
        exact same hl'
      · rw [Act.exec, heq] at hl'
        rcases update_some hl' with ⟨hu, heq⟩ | ⟨_, heq⟩
        · cases heq
          exact ⟨l, hu ▸ hl, rfl, rfl, (List.mem_append.mp he).imp_right fun h => ⟨hu, h⟩⟩
        · exact same heq
    | collectDraft d rendered =>
      cases hl : s.listings t with
      | none =>
        simp only [Act.exec, Service.collectDraft, hl] at hl'
        exact same hl'
      | some l =>
        simp only [Act.exec, Service.collectDraft, hl, Service.addEntry, Option.map_some] at hl'
        rcases update_some hl' with ⟨hu, heq⟩ | ⟨_, heq⟩
        · cases heq
          exact ⟨l, hu ▸ hl, rfl, rfl, (List.mem_append.mp he).imp_right fun h => ⟨hu, h⟩⟩
        · exact same heq
    | _ => cases hc
  · cases Act.exec_listingStep cfg t p h with
    | start inboxId mdef _ listings _ =>
      rw [listings] at hl'
      rcases update_some hl' with ⟨_, heq⟩ | ⟨_, heq⟩
      · cases heq
        cases he
      · exact same heq
    | extend _ _ _ hp _ _ _ => exact absurd hp hc
    | stop _ listings _ =>
      rw [listings] at hl'
      rcases update_some hl' with ⟨_, heq⟩ | ⟨_, heq⟩
      · cases heq
      · exact same heq
    | quiet _ listings _ =>
      rw [listings] at hl'
      exact same hl'

/-- A pin was there before, or is pinned here. -/
theorem Act.exec_pins (cfg : Config) (t : Tid) (p : Act) (h : s.store.Ok) {key : Key} {q : Pin}
    (hq : q ∈ (p.exec cfg t s).pinned key) :
    q ∈ s.pinned key ∨ p.pins cfg = some (key, q.entry) := by
  have pinned : ∀ {s' s₁ : Service} {key₁ : Key} {k : String} {e : Entry},
      s₁.pinned = s.pinned → s'.pinned = (s₁.pin key₁ k e).pinned → p.pins cfg = some (key₁, e) →
      q ∈ s'.pinned key → q ∈ s.pinned key ∨ p.pins cfg = some (key, q.entry) := by
    intro s' s₁ key₁ k e hs₁ hs' hp hq
    rcases (Service.mem_of_pin hs').mp hq with ⟨hkey, hentry⟩ | ⟨hold, _⟩
    · rw [hkey, hentry]
      exact .inr hp
    · rw [hs₁] at hold
      exact .inl hold
  cases p with
  | publish =>
    cases hl : s.listings t with
    | none =>
      rw [Act.exec, Service.publish_none hl] at hq
      exact .inl hq
    | some l =>
      obtain ⟨store, watermark, v, _, heq⟩ := Service.publish_eq h hl
      rw [Act.exec, heq] at hq
      simp only at hq
      by_cases hk : key = l.key
      · subst hk
        rw [Function.update_self] at hq
        exact .inl (mem_applyPins.mp hq).1
      · rw [Function.update_of_ne hk] at hq
        exact .inl hq
  | appendCommit inboxId created rendered =>
    obtain ⟨store, watermark, cache, _, _, heq⟩ :=
      Service.appendCommit_eq cfg h inboxId created rendered
    rw [Act.exec, heq] at hq
    exact pinned rfl rfl rfl hq
  | copyItem inboxId item result =>
    obtain ⟨store, watermark, _, _, heq⟩ := Service.copyItem_eq h t inboxId item result
    obtain ⟨heldFrom, hsettle⟩ := Service.settlePatch_eq (s.copyItem t inboxId item result) t
    rw [Act.exec, hsettle, heq] at hq
    exact pinned rfl rfl rfl hq
  | unpin key' k => exact .inl (Service.mem_unpin.mp hq).1
  | setFlagCommit key' item add remove result =>
    obtain ⟨heldFrom, heq⟩ :=
      Service.settlePatch_eq (s.setFlagCommit key' item add remove result) t
    rw [Act.exec, heq] at hq
    simp only [Service.setFlagCommit, Service.replaceItem] at hq
    split at hq
    · exact .inl hq
    · split at hq <;> exact .inl hq
  | expungeCommit inboxId item result =>
    obtain ⟨heldFrom, heq⟩ := Service.settlePatch_eq (s.expungeCommit inboxId item result) t
    rw [Act.exec, heq] at hq
    exact .inl hq
  | collectMessage m =>
    rcases Service.collectMessage_cases cfg s t m with heq | ⟨l, _, _, heq⟩ <;>
      rw [Act.exec, heq] at hq <;> exact .inl hq
  | collectDraft d rendered =>
    simp only [Act.exec, Service.collectDraft] at hq
    split at hq <;> exact .inl hq
  | reap n =>
    simp only [Act.exec, Service.reap] at hq
    split at hq <;> exact .inl hq
  | applyPatch =>
    simp only [Act.exec, Service.applyPatch] at hq
    split at hq <;> exact .inl hq
  | _ => exact .inl hq

/-! ## Entries and their items -/

/-- An entry and its item name the same object. -/
structure Entry.Made (e : Entry) : Prop where
  key : e.item.remoteKey = e.remoteKey
  id : e.item.remoteId = e.remoteId

/-- What a mailbox lists. -/
def kindAt (key : Key) : Kind := if key.2 = drafts.name then .drafts else .messages

theorem kindAt_eq {mdef : MailboxDef} (h : mdef ∈ mailboxes) (inboxId : String) :
    kindAt (inboxId, mdef.name) = mdef.kind := by
  have hall : ∀ m ∈ mailboxes,
      (if m.name = drafts.name then Kind.drafts else Kind.messages) = m.kind := by
    decide
  exact hall mdef h

/-- The remote key of an item is made from its remote id. -/
def Item.Keyed (cfg : Config) (kind : Kind) (item : Item) : Prop :=
  match kind with
  | .messages => item.remoteKey = item.remoteId
  | .drafts => ∃ rendered, item.remoteKey = contentKey cfg item.remoteId rendered

theorem Item.Keyed.same {kind : Kind} {a b : Item} (h : a.Keyed cfg kind) (hsame : a.Same b) :
    b.Keyed cfg kind := by
  cases kind with
  | messages =>
    have hkey : a.remoteKey = a.remoteId := h
    show b.remoteKey = b.remoteId
    rw [← hsame.remoteKey, ← hsame.remoteId, hkey]
  | drafts =>
    obtain ⟨rendered, hkey⟩ := h
    refine ⟨rendered, ?_⟩
    rw [← hsame.remoteKey, ← hsame.remoteId, hkey]

theorem Item.Keyed.id_eq {kind : Kind} {a b : Item} (h : a.Keyed cfg kind) (h' : b.Keyed cfg kind)
    (hk : a.remoteKey = b.remoteKey) : a.remoteId = b.remoteId := by
  cases kind with
  | messages => exact Eq.trans (Eq.symm h) (hk.trans h')
  | drafts =>
    obtain ⟨r, hr⟩ := h
    obtain ⟨r', hr'⟩ := h'
    exact contentKey_inj (hr.symm.trans (hk.trans hr'))

theorem Entry.Made.keyed {e : Entry} {kind : Kind} (h : e.Made) (hk : Keyed cfg kind e) (uid : Nat) :
    (e.build uid).Keyed cfg kind := by
  cases kind with
  | messages => exact h.key.trans (Eq.trans hk h.id.symm)
  | drafts =>
    obtain ⟨rendered, hr⟩ := hk
    refine ⟨rendered, h.key.trans (hr.trans ?_)⟩
    show _ = contentKey cfg e.item.remoteId rendered
    rw [h.id]

/-- Every entry names the object of its item, a pinned one and a shown item under a
key that its mailbox would list it by. -/
structure Named (cfg : Config) (s : Service) : Prop where
  listings : ∀ t l, s.listings t = some l → ∀ e ∈ l.entries, e.Made
  pins : ∀ key, ∀ q ∈ s.pinned key, q.entry.Made ∧ Keyed cfg (kindAt key) q.entry
  shown : ∀ x ∈ s.aux.shown, x.2.Keyed cfg (kindAt x.1)

theorem Act.adds_made {l : Listing} {e : Entry} (he : e ∈ p.adds cfg s l) : e.Made := by
  cases p with
  | collectMessage m =>
    simp only [Act.adds, Service.messageEntries] at he
    split at he
    · cases he
    · rw [List.mem_singleton.mp he]
      exact ⟨rfl, rfl⟩
  | collectDraft d rendered =>
    rw [List.mem_singleton.mp he]
    exact ⟨rfl, rfl⟩
  | _ => cases he

/-- A known message is keyed by its id. -/
theorem Named.message {inboxId : String} {mdef : MailboxDef} {item : Item} (h : Named cfg s)
    (hkind : mdef.kind = .messages) (hknown : s.Knows inboxId mdef item) :
    item.remoteKey = item.remoteId := by
  obtain ⟨hmem, x, hx, hkey, hsame⟩ := hknown
  have hkeyed := (h.shown x hx).same hsame
  rw [hkey, kindAt_eq hmem, hkind] at hkeyed
  exact hkeyed

theorem Named.pinned {key : Key} {e : Entry} (h : Named cfg s) (ho : Owes cfg R t p s)
    (hp : p.pins cfg = some (key, e)) : e.Made ∧ Keyed cfg (kindAt key) e := by
  cases p with
  | appendCommit inboxId created rendered =>
    cases hp
    exact ⟨⟨rfl, rfl⟩, rendered, rfl⟩
  | copyItem inboxId item result =>
    cases hp
    obtain ⟨mdef, hkind, hknown⟩ := ho.1.known
    have hkey : item.remoteKey = item.remoteId := h.message hkind hknown
    exact ⟨⟨hkey, rfl⟩, rfl⟩
  | _ => cases hp

/-- An item of a published snapshot is an entry with the UID of its key. -/
theorem mem_itemsOf {store : Store.Db} {key : Key} {entries : List Entry} {item : Item} :
    item ∈ itemsOf store key entries ↔ ∃ e ∈ entries,
      e.build ((store.liveUid key.1 key.2 e.remoteKey).getD 0) = item := by
  rw [itemsOf, mem_sortItems, List.mem_map]

theorem Named.collected {l : Listing} {e : Entry} (h : Named cfg s) (hi : Inv cfg R s)
    (hl : s.listings t = some l) (he : e ∈ s.collected l) :
    e.Made ∧ Keyed cfg (kindAt l.key) e := by
  have hok := hi.listings t l hl
  rcases mem_collected.mp he with he | ⟨q, hq, _, _, rfl⟩
  · refine ⟨h.listings t l hl e he, ?_⟩
    rw [show kindAt l.key = l.mdef.kind from kindAt_eq hok.known l.inboxId]
    exact hok.keyed e he
  · exact h.pins _ q hq

theorem Named.step (h : Named cfg s) (hi : Inv cfg R s) (ho : Owes cfg R t p s) :
    Named cfg (p.exec cfg t s) where
  listings u l' hl' e he := by
    obtain ⟨l, hl, _, _, hold | ⟨_, hnew⟩⟩ := Act.exec_entries cfg t p hi.store hl' he
    · exact h.listings u l hl e hold
    · exact Act.adds_made hnew
  pins key q hq := by
    rcases Act.exec_pins cfg t p hi.store hq with hold | hnew
    · exact h.pins key q hold
    · exact h.pinned ho hnew
  shown x hx := by
    cases Act.exec_shownStep cfg t p hi.store with
    | publish l v _ hl shown =>
      rw [shown] at hx
      rcases List.mem_append.mp hx with hx | hx
      · exact h.shown x hx
      · obtain ⟨item, hitem, rfl⟩ := List.mem_map.mp hx
        obtain ⟨e, he, rfl⟩ := mem_itemsOf.mp hitem
        obtain ⟨hmade, hkeyed⟩ := h.collected hi hl he
        exact hmade.keyed hkeyed _
    | quiet _ shown =>
      rw [shown] at hx
      exact h.shown x hx

/-- Nothing is listed, pinned or shown at first. -/
structure Blank (s : Service) : Prop where
  listings : ∀ t, s.listings t = none
  pinned : ∀ key, s.pinned key = []
  shown : s.aux.shown = []

theorem Blank.named (h : Blank s) : Named cfg s where
  listings t l hl := by rw [h.listings] at hl; cases hl
  pins key q hq := by rw [h.pinned] at hq; cases hq
  shown x hx := by rw [h.shown] at hx; cases hx

theorem Conducted.named (h : Conducted cfg R s₀ hs s) (h₀ : Blank s₀) : Named cfg s :=
  (h.always h₀.named fun x hx hi hn => hn.step hi (h.owed x hx)).2

/-! ## Publications -/

/-- The snapshot of the mailbox of `key` that is published here. -/
def Happening.Publishes (cfg : Config) (x : Happening) (key : Key) (snap : Snapshot) : Prop :=
  ∃ l, x.publishing = some l ∧ l.key = key ∧ (x.after cfg).latest key = some snap

/-- A published snapshot holds the collected entries under the UIDs the store has
given their keys. -/
theorem Happening.Publishes.spec {key : Key} {snap : Snapshot} (h : x.Publishes cfg key snap)
    (hok : x.before.store.Ok) : ∃ l v, x.before.listings x.tid = some l ∧ l.key = key ∧
      snap = x.before.publication l (x.after cfg).store v ∧
      Store.Db.Reconciled l.key.1 l.key.2 ((x.before.collected l).map (·.remoteKey))
        x.before.store (x.after cfg).store := by
  obtain ⟨l, hpub, rfl, hlatest⟩ := h
  obtain ⟨hact, hl⟩ := Happening.publishing_eq_some.mp hpub
  obtain ⟨store, watermark, v, hrec, heq⟩ := Service.publish_eq hok hl
  have hafter : x.after cfg = x.before.publish x.tid := by
    rw [Happening.after, hact, Act.exec]
  rw [hafter, heq] at hlatest ⊢
  simp only [Function.update_self, Option.some.injEq] at hlatest
  exact ⟨l, v, hl, rfl, hlatest.symm, hrec⟩

/-- A snapshot says what the store says of its mailbox. -/
structure Snapshot.Agrees (snap : Snapshot) (store : Store.Db) : Prop where
  ascending : snap.uids.Pairwise (· < ·)
  below : ∀ u ∈ snap.uids, u < snap.uidnext
  keys : (snap.items.map (·.remoteKey)).Nodup
  byUid : ∀ u item, snap.byUid u = some item ↔ item ∈ snap.items ∧ item.uid = u
  live : ∀ k u, store.liveUid snap.inboxId snap.name k = some u ↔
    ∃ item ∈ snap.items, item.remoteKey = k ∧ item.uid = u

/-- `by_uid` of a snapshot without repeated UIDs. -/
theorem Snapshot.byUid_eq_some {snap : Snapshot} (h : snap.uids.Pairwise (· < ·)) {u : Nat}
    {item : Item} : snap.byUid u = some item ↔ item ∈ snap.items ∧ item.uid = u := by
  refine ⟨Snapshot.byUid_some, fun ⟨hitem, huid⟩ => ?_⟩
  have hmem : u ∈ snap.uids := huid ▸ List.mem_map_of_mem hitem
  obtain ⟨item', hitem'⟩ := Option.isSome_iff_exists.mp (Snapshot.byUid_isSome.mpr hmem)
  obtain ⟨hin, huid'⟩ := Snapshot.byUid_some hitem'
  have hnodup : snap.uids.Nodup := h.imp fun hlt => Nat.ne_of_lt hlt
  rw [hitem', List.inj_on_of_nodup_map hnodup hin hitem (huid'.trans huid.symm)]

/-- The items are those of the collected entries, each under the UID of its key. -/
theorem mem_publication {l : Listing} {v : Nat} {store : Store.Db} {item : Item}
    (hrec : Store.Db.Reconciled l.key.1 l.key.2 ((s.collected l).map (·.remoteKey)) s.store store) :
    item ∈ (s.publication l store v).items ↔ ∃ e u, e ∈ s.collected l ∧
      store.liveUid l.key.1 l.key.2 e.remoteKey = some u ∧ e.build u = item := by
  refine mem_itemsOf.trans ⟨fun ⟨e, he, hitem⟩ => ?_, fun ⟨e, u, he, hu, hitem⟩ => ?_⟩
  · obtain ⟨u, hu⟩ := (hrec.live e.remoteKey).mpr (List.mem_map_of_mem he)
    rw [hu] at hitem
    exact ⟨e, u, he, hu, hitem⟩
  · exact ⟨e, he, by rw [hu]; exact hitem⟩

/-- What is published where the service is in order. -/
theorem Happening.Publishes.current {key : Key} {snap : Snapshot} (h : x.Publishes cfg key snap)
    (hi : Inv cfg R x.before) : snap.Current (x.after cfg).store key := by
  obtain ⟨l, v, hl, rfl, rfl, hrec⟩ := h.spec hi.store
  exact publication_current (hi.listings _ l hl) (hi.pins _) v hrec

/-- The keys of the items are those of the entries. -/
theorem publication_keys {l : Listing} {v : Nat} {store : Store.Db}
    (hmade : ∀ e ∈ s.collected l, e.Made) : ((s.publication l store v).items.map (·.remoteKey)).Perm
      ((s.collected l).map (·.remoteKey)) := by
  refine ((List.perm_insertionSort _ _).map _).trans (List.Perm.of_eq ?_)
  rw [List.map_map]
  exact List.map_congr_left fun e he => (hmade e he).key

theorem Happening.Publishes.agrees {key : Key} {snap : Snapshot} (h : x.Publishes cfg key snap)
    (hi : Inv cfg R x.before) (hn : Named cfg x.before) : snap.Agrees (x.after cfg).store := by
  have hvalid := (h.current hi).valid
  obtain ⟨l, v, hl, rfl, rfl, hrec⟩ := h.spec hi.store
  have hmade : ∀ e ∈ x.before.collected l, e.Made := fun e he => (hn.collected hi hl he).1
  refine ⟨hvalid.ascending, hvalid.below, ?_, fun u item => Snapshot.byUid_eq_some hvalid.ascending,
    fun k u => ⟨fun hu => ?_, fun ⟨item, hitem, hkey, huid⟩ => ?_⟩⟩
  · rw [(publication_keys hmade).nodup_iff]
    exact collected_nodup (hi.listings _ l hl).keys (hi.pins _)
  · obtain ⟨e, he, rfl⟩ := List.mem_map.mp ((hrec.live k).mp ⟨u, hu⟩)
    exact ⟨e.build u, (mem_publication hrec).mpr ⟨e, u, he, hu, rfl⟩, (hmade e he).key, rfl⟩
  · obtain ⟨e, u', he, hu', rfl⟩ := (mem_publication hrec).mp hitem
    rw [← hkey, ← huid]
    show (x.after cfg).store.liveUid l.key.1 l.key.2 e.item.remoteKey = some u'
    rw [(hmade e he).key, hu']

/-- Every published snapshot says what the store says, and of two snapshots of a
mailbox the later one has its new UIDs above all those of the earlier one. -/
structure SnapshotsAgree (cfg : Config) (hs : List Happening) : Prop where
  agree : ∀ x ∈ hs, ∀ key snap, x.Publishes cfg key snap →
    snap.key = key ∧ snap.Agrees (x.after cfg).store
  above : ∀ newer y mid x older key snap snap', hs = newer ++ y :: (mid ++ x :: older) →
    x.Publishes cfg key snap → y.Publishes cfg key snap' →
    ∀ u ∈ snap'.uids, u ∉ snap.uids → ∀ v ∈ snap.uids, v < u

theorem Conducted.snapshotsAgree (h : Conducted cfg R s₀ hs s) (h₀ : Blank s₀) :
    SnapshotsAgree cfg hs where
  agree x hx key snap hp := by
    obtain ⟨newer, older, rfl⟩ := List.append_of_mem hx
    have hbefore := h.before
    exact ⟨(hp.current hbefore.inv).key_eq, hp.agrees hbefore.inv (hbefore.named h₀)⟩
  above newer y mid x older key snap snap' heq hp hp' u hu hnew v hv := by
    subst heq
    have hy := h.before
    have hold := hp.current hy.before.inv
    have hlater := hp'.current hy.inv
    have hev := hy.after.evolve.trans (hy.inv.evolve y.tid y.action)
    obtain ⟨k, hk⟩ := hlater.live u hu
    have hkey := hold.key_eq
    subst hkey
    rcases (hold.valid.grows hev.store).rest k u hk with hin | hle
    · exact absurd hin hnew
    · exact Nat.lt_of_lt_of_le (hold.valid.below v hv) hle

/-- The tables one happening leaves have only grown when a later one comes. -/
theorem Conducted.grows (h : Conducted cfg R s₀ hs s) :
    hs.Pairwise fun y x => (x.after cfg).store.Grows y.before.store := by
  refine List.pairwise_iff_forall_sublist.mpr fun {y x} hsub => ?_
  obtain ⟨r₁, r₂, rfl, hy, hx⟩ := List.cons_sublist_iff.mp hsub
  obtain ⟨newer, mid₁, rfl⟩ := List.append_of_mem hy
  obtain ⟨mid₂, older, rfl⟩ := List.append_of_mem (List.singleton_sublist.mp hx)
  have heq : newer ++ y :: mid₁ ++ (mid₂ ++ x :: older) =
      newer ++ y :: (mid₁ ++ mid₂ ++ x :: older) := by simp
  rw [heq] at h
  exact h.before.after.evolve.store

/-! ## One version of a draft -/

/-- The pins a publication of the listing keeps are of drafts it has not found, each
of another one. -/
def Service.PinsApart (s : Service) (l : Listing) : Prop :=
  ∀ q ∈ (Service.applyPins s.time (s.pinned l.key) l.entries).1,
    q.entry.remoteId ∉ l.entries.map (·.remoteId) ∧
      ∀ q' ∈ (Service.applyPins s.time (s.pinned l.key) l.entries).1,
        q.entry.remoteId = q'.entry.remoteId → q = q'

/-- A published snapshot has no two items of one remote id exactly when the pins it
keeps are apart. -/
theorem Happening.Publishes.ids_nodup {key : Key} {snap : Snapshot}
    (h : x.Publishes cfg key snap) (hi : Inv cfg R x.before) (hn : Named cfg x.before) :
    (snap.items.map (·.remoteId)).Nodup ↔
      ∃ l, x.publishing = some l ∧ x.before.PinsApart l := by
  have hpub := h
  obtain ⟨l, hl', _⟩ := hpub
  obtain ⟨l₁, v, hl, rfl, rfl, hrec⟩ := h.spec hi.store
  have heq : x.before.listings x.tid = some l := (Happening.publishing_eq_some.mp hl').2
  rw [hl] at heq
  cases heq
  have hmade : ∀ e ∈ x.before.collected l, e.Made := fun e he => (hn.collected hi hl he).1
  let kept := (Service.applyPins x.before.time (x.before.pinned l.key) l.entries).1
  have hitems : ((x.before.publication l (x.after cfg).store v).items.map (·.remoteId)).Perm
      ((l.entries ++ kept.map (·.entry)).map (·.remoteId)) := by
    have hbuild : ((x.before.collected l).map fun e => e.build
        (((x.after cfg).store.liveUid l.key.1 l.key.2 e.remoteKey).getD 0)).map (·.remoteId) =
        (x.before.collected l).map (·.remoteId) := by
      rw [List.map_map]
      exact List.map_congr_left fun e he => (hmade e he).id
    exact ((List.perm_insertionSort _ _).map _).trans
      ((List.Perm.of_eq hbuild).trans ((List.perm_insertionSort _ _).map _))
  have hkept : kept.Nodup := (((hi.pins l.key).filter _).keys).of_map
  have hexists : (∃ l, x.publishing = some l ∧ x.before.PinsApart l) ↔ x.before.PinsApart l :=
    ⟨fun ⟨l', hp, ha⟩ => by rw [hl'] at hp; cases hp; exact ha, fun ha => ⟨l, hl', ha⟩⟩
  rw [hexists, hitems.nodup_iff, List.map_append, List.map_map, List.nodup_append']
  constructor
  · rintro ⟨_, hinj, hdisj⟩ q hq
    refine ⟨fun hmem => hdisj hmem (List.mem_map_of_mem hq), fun q' hq' hid => ?_⟩
    exact List.inj_on_of_nodup_map hinj hq hq' hid
  · intro hap
    refine ⟨(hi.listings _ l hl).ids, hkept.map_on fun q hq q' hq' hid => (hap q hq).2 q' hq' hid,
      fun id hid hid' => ?_⟩
    obtain ⟨q, hq, rfl⟩ := List.mem_map.mp hid'
    exact (hap q hq).1 hid

/-! ## Dates -/

/-- The dates found here: what is listed or created, by kind, inbox and remote key. -/
def Happening.dates (cfg : Config) (x : Happening) : List ((Kind × String × String) × Datetime) :=
  match x.action with
  | .appendCommit inboxId created rendered =>
    let e := Service.draftEntry cfg inboxId created rendered
    [((.drafts, inboxId, e.remoteKey), e.item.internaldate)]
  | p => match x.before.listings x.tid with
    | some l => (p.adds cfg x.before l).map fun e =>
      ((l.mdef.kind, l.inboxId, e.remoteKey), e.item.internaldate)
    | none => []

theorem Happening.mem_dates {l : Listing} {e : Entry} (hl : x.before.listings x.tid = some l)
    (he : e ∈ x.action.adds cfg x.before l) :
    ((l.mdef.kind, l.inboxId, e.remoteKey), e.item.internaldate) ∈ x.dates cfg := by
  unfold Happening.dates
  split
  · rename_i hact
    rw [hact] at he
    cases he
  · rw [hl]
    exact List.mem_map_of_mem (f := fun e : Entry =>
      ((l.mdef.kind, l.inboxId, e.remoteKey), e.item.internaldate)) he

/-- Upstream gives what has one remote key one date. -/
def FixedDates (cfg : Config) (kind : Kind) (hs : List Happening) : Prop :=
  ∀ x ∈ hs, ∀ y ∈ hs, ∀ a ∈ x.dates cfg, ∀ b ∈ y.dates cfg,
    a.1.1 = kind → a.1 = b.1 → a.2 = b.2

/-- Every entry and every shown item has a date that `P` allows for its kind, inbox
and remote key. -/
structure Dated (P : Kind × String × String → Datetime → Prop) (s : Service) : Prop where
  listings : ∀ t l, s.listings t = some l → ∀ e ∈ l.entries,
    P (l.mdef.kind, l.inboxId, e.remoteKey) e.item.internaldate
  pins : ∀ key, ∀ q ∈ s.pinned key,
    P (kindAt key, key.1, q.entry.remoteKey) q.entry.item.internaldate
  shown : ∀ x ∈ s.aux.shown, P (kindAt x.1, x.1.1, x.2.remoteKey) x.2.internaldate

variable {P : Kind × String × String → Datetime → Prop}

theorem Blank.dated (h : Blank s) : Dated P s where
  listings t l hl := by rw [h.listings] at hl; cases hl
  pins key q hq := by rw [h.pinned] at hq; cases hq
  shown x hx := by rw [h.shown] at hx; cases hx

theorem Dated.collected {l : Listing} {e : Entry} (h : Dated P s) (hi : Inv cfg R s)
    (hl : s.listings t = some l) (he : e ∈ s.collected l) :
    P (kindAt l.key, l.key.1, e.remoteKey) e.item.internaldate := by
  rcases mem_collected.mp he with he | ⟨q, hq, _, _, rfl⟩
  · rw [show kindAt l.key = l.mdef.kind from kindAt_eq (hi.listings t l hl).known l.inboxId]
    exact h.listings t l hl e he
  · exact h.pins _ q hq

/-- What is pinned here has its date, an APPEND by what it found and a COPY by the
message it copied. -/
theorem Dated.pinned {key : Key} {e : Entry} (h : Dated P x.before) (hn : Named cfg x.before)
    (ho : Owes cfg R x.tid x.action x.before) (hP : ∀ a ∈ x.dates cfg, P a.1 a.2)
    (hp : x.action.pins cfg = some (key, e)) :
    P (kindAt key, key.1, e.remoteKey) e.item.internaldate := by
  obtain ⟨u, p, s⟩ := x
  cases p with
  | appendCommit inboxId created rendered =>
    cases hp
    exact hP _ (List.mem_singleton_self _)
  | copyItem inboxId item result =>
    cases hp
    obtain ⟨mdef, hkind, hknown⟩ := ho.1.known
    have hkey : item.remoteKey = item.remoteId := hn.message hkind hknown
    obtain ⟨hmem, y, hy, hykey, hsame⟩ := hknown
    have hdate := h.shown y hy
    rw [hykey, kindAt_eq hmem, hkind, hsame.internaldate, hsame.remoteKey, hkey] at hdate
    exact hdate
  | _ => cases hp

theorem Dated.step (h : Dated P x.before) (hi : Inv cfg R x.before) (hn : Named cfg x.before)
    (ho : Owes cfg R x.tid x.action x.before) (hP : ∀ a ∈ x.dates cfg, P a.1 a.2) :
    Dated P (x.after cfg) where
  listings u l' hl' e he := by
    obtain ⟨l, hl, hid, hdef, hold | ⟨rfl, hnew⟩⟩ := Act.exec_entries cfg x.tid x.action hi.store
      hl' he
    · rw [← hid, ← hdef]
      exact h.listings u l hl e hold
    · rw [← hid, ← hdef]
      exact hP _ (Happening.mem_dates hl hnew)
  pins key q hq := by
    rcases Act.exec_pins cfg x.tid x.action hi.store hq with hold | hnew
    · exact h.pins key q hold
    · exact h.pinned hn ho hP hnew
  shown y hy := by
    cases Act.exec_shownStep cfg x.tid x.action hi.store with
    | publish l v _ hl shown =>
      rw [Happening.after, shown] at hy
      rcases List.mem_append.mp hy with hy | hy
      · exact h.shown y hy
      · obtain ⟨item, hitem, rfl⟩ := List.mem_map.mp hy
        obtain ⟨e, he, rfl⟩ := mem_itemsOf.mp hitem
        show P (kindAt l.key, l.key.1, e.item.remoteKey) e.item.internaldate
        rw [(hn.collected hi hl he).1.key]
        exact h.collected hi hl he
    | quiet _ shown =>
      rw [Happening.after, shown] at hy
      exact h.shown y hy

theorem Conducted.dated (h : Conducted cfg R s₀ hs s) (h₀ : Blank s₀)
    (hP : ∀ x ∈ hs, ∀ a ∈ x.dates cfg, P a.1 a.2) : Dated P s :=
  (h.always (P := fun s => Named cfg s ∧ Dated P s) ⟨h₀.named, h₀.dated⟩ fun x hx hi hs =>
    ⟨hs.1.step hi (h.owed x hx), hs.2.step hi hs.1 (h.owed x hx) (hP x hx)⟩).2.2

/-- A published item has the date of its key. -/
theorem Happening.Publishes.dated {key : Key} {snap : Snapshot} {item : Item}
    (h : x.Publishes cfg key snap) (hi : Inv cfg R x.before) (hn : Named cfg x.before)
    (hd : Dated P x.before) (hitem : item ∈ snap.items) :
    item.Keyed cfg (kindAt key) ∧ P (kindAt key, key.1, item.remoteKey) item.internaldate := by
  obtain ⟨l, v, hl, rfl, rfl, hrec⟩ := h.spec hi.store
  obtain ⟨e, u, he, _, rfl⟩ := (mem_publication hrec).mp hitem
  obtain ⟨hmade, hkeyed⟩ := hn.collected hi hl he
  refine ⟨hmade.keyed hkeyed u, ?_⟩
  show P (kindAt l.key, l.key.1, e.item.remoteKey) e.item.internaldate
  rw [hmade.key]
  exact hd.collected hi hl he

end Mailbox
end ImapGateway
