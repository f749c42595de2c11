/-
The flags and the ids of what is shown.

`\Seen` and `\Flagged` are read off the labels of a message, and `\Deleted` is kept
beside the items, so an item of a listing, a pin or a snapshot never says anything else.
A UID that has been shown stands for one remote key for ever, so two items of the latest
snapshot of a view are two messages.
-/
import ImapGateway.Mailbox.Publications

namespace ImapGateway
namespace Mailbox

variable {cfg : Config} {R : Regime} {s₀ s : Service} {t : Tid} {p : Act} {hs : List Happening}

/-! ## Flags -/

/-- The item has the flags its labels stand for, and no mark of its own. -/
structure Item.Plain (kind : Kind) (item : Item) : Prop where
  unmarked : Flag.deleted ∉ item.flags
  labelled : kind = .messages → item.flags = messageFlags item.labels

theorem deleted_notMem_messageFlags (labels : Labels) : Flag.deleted ∉ messageFlags labels := by
  unfold messageFlags
  split <;> split <;> simp

theorem Item.Plain.of_labels {item : Item} (kind : Kind) (h : item.flags = messageFlags item.labels) :
    item.Plain kind where
  unmarked := by
    rw [h]
    exact deleted_notMem_messageFlags _
  labelled _ := h

/-- Nothing in the service shows flags its labels do not stand for. -/
structure PlainFlags (s : Service) : Prop where
  listings : ∀ t l, s.listings t = some l → ∀ e ∈ l.entries, e.item.Plain l.mdef.kind
  pins : ∀ key, ∀ q ∈ s.pinned key, q.entry.item.Plain (kindAt key)
  latest : ∀ key snap, s.latest key = some snap → ∀ item ∈ snap.items, item.Plain (kindAt key)

theorem Act.adds_plain {l : Listing} {e : Entry} (ho : Owes cfg R t p s)
    (hl : s.listings t = some l) (he : e ∈ p.adds cfg s l) : e.item.Plain l.mdef.kind := by
  cases p with
  | collectMessage m =>
    simp only [Act.adds, Service.messageEntries] at he
    split at he
    · cases he
    · rw [List.mem_singleton.mp he]
      exact .of_labels _ rfl
  | collectDraft d rendered =>
    have hkind : l.mdef.kind = .drafts := (ho l hl).1.1
    rw [List.mem_singleton.mp he, hkind]
    exact ⟨by simp [Service.draftEntry, draftFlags], (by simp)⟩
  | _ => cases he

theorem Act.pins_plain {key : Key} {e : Entry} (hp : p.pins cfg = some (key, e)) :
    e.item.Plain (kindAt key) := by
  cases p with
  | appendCommit inboxId created rendered =>
    cases hp
    exact ⟨by simp [Service.draftEntry, draftFlags], nofun⟩
  | copyItem inboxId item result =>
    cases hp
    exact .of_labels _ rfl
  | _ => cases hp

theorem PlainFlags.collected {l : Listing} {e : Entry} (h : PlainFlags s) (hi : Inv cfg R s)
    (hl : s.listings t = some l) (he : e ∈ s.collected l) : e.item.Plain (kindAt l.key) := by
  rcases mem_collected.mp he with he | ⟨q, hq, _, _, rfl⟩
  · rw [show kindAt l.key = l.mdef.kind from kindAt_eq (hi.listings t l hl).known l.inboxId]
    exact h.listings t l hl e he
  · exact h.pins _ q hq

theorem PlainFlags.step (h : PlainFlags s) (hi : Inv cfg R s) (ho : Owes cfg R t p s) :
    PlainFlags (p.exec cfg t s) where
  listings u l' hl' e he := by
    obtain ⟨l, hl, _, hdef, hold | ⟨rfl, hnew⟩⟩ := Act.exec_entries cfg t p hi.store hl' he
    · rw [← hdef]
      exact h.listings u l hl e hold
    · rw [← hdef]
      exact Act.adds_plain ho hl hnew
  pins key q hq := by
    rcases Act.exec_pins cfg t p hi.store hq with hold | hnew
    · exact h.pins key q hold
    · exact Act.pins_plain hnew
  latest key snap hsnap item hitem := by
    cases Act.exec_latest cfg hi.store hsnap with
    | kept snap₀ hsnap₀ _ _ _ hitems _ =>
      rcases hitems item hitem with hold | ⟨item₀, add, remove, result, _, rfl⟩
      · exact h.latest key snap₀ hsnap₀ item hold
      · exact .of_labels _ rfl
    | published l v hp hl hk heq =>
      subst hk heq
      obtain ⟨e, he, rfl⟩ := mem_itemsOf.mp hitem
      have hplain := h.collected hi hl he
      exact ⟨hplain.unmarked, hplain.labelled⟩

/-- A service with no snapshot yet. -/
theorem Blank.plainFlags (h : Blank s) (hlatest : ∀ key, s.latest key = none) : PlainFlags s where
  listings t l hl := by rw [h.listings] at hl; cases hl
  pins key q hq := by rw [h.pinned] at hq; cases hq
  latest key snap hsnap := by rw [hlatest] at hsnap; cases hsnap

theorem Conducted.plainFlags (h : Conducted cfg R s₀ hs s) (h₀ : PlainFlags s₀) : PlainFlags s :=
  (h.always h₀ fun x hx hi hp => hp.step hi (h.owed x hx)).2

/-! ## Ids -/

/-- A UID that has been shown is live for no other remote key, now or later. -/
def Bound (s : Service) : Prop :=
  ∀ x ∈ s.aux.shown, x.2.uid < s.store.nextUid x.1.1 x.1.2 ∧
    ∀ k, s.store.liveUid x.1.1 x.1.2 k = some x.2.uid → k = x.2.remoteKey

theorem Bound.step (h : Bound s) (hi : Inv cfg R s) (hn : Named cfg s) :
    Bound (p.exec cfg t s) := by
  have hgrows := (hi.evolve t p).store
  have hold : ∀ x ∈ s.aux.shown, x.2.uid < (p.exec cfg t s).store.nextUid x.1.1 x.1.2 ∧
      ∀ k, (p.exec cfg t s).store.liveUid x.1.1 x.1.2 k = some x.2.uid → k = x.2.remoteKey := by
    intro x hx
    obtain ⟨hlt, hkey⟩ := h x hx
    refine ⟨Nat.lt_of_lt_of_le hlt (hgrows _ _).1, fun k hk => ?_⟩
    rcases (hgrows _ _).2 k _ hk with hk | hle
    · exact hkey k hk
    · omega
  intro x hx
  cases Act.exec_shownStep cfg t p hi.store with
  | quiet _ shown =>
    rw [shown] at hx
    exact hold x hx
  | publish l v hp hl shown =>
    rw [shown] at hx
    rcases List.mem_append.mp hx with hx | hx
    · exact hold x hx
    · subst hp
      obtain ⟨store, watermark, v', hrec, heq⟩ := Service.publish_eq hi.store hl
      have hstore : (Act.publish.exec cfg t s).store = store := by rw [Act.exec, heq]
      rw [hstore] at hx ⊢
      obtain ⟨item, hitem, rfl⟩ := List.mem_map.mp hx
      obtain ⟨e, u, he, hu, rfl⟩ := (mem_publication hrec).mp hitem
      refine ⟨hrec.ok.liveUid_lt hu, fun k hk => ?_⟩
      show k = e.item.remoteKey
      rw [(hn.collected hi hl he).1.key]
      exact hrec.ok.liveUid_inj hk hu

theorem Conducted.bound (h : Conducted cfg R s₀ hs s) (h₀ : Blank s₀) : Bound s := by
  have hboth := h.always (P := fun s => Named cfg s ∧ Bound s)
    ⟨h₀.named, fun x hx => by rw [h₀.shown] at hx; cases hx⟩
    fun x hx hi hs => ⟨hs.1.step hi (h.owed x hx), hs.2.step hi hs.1⟩
  exact hboth.2.2

/-- Two items of the latest snapshot of a view are two messages. -/
theorem Inv.eq_of_remoteId (hi : Inv cfg R s) (hb : Bound s) (hn : Named cfg s) {key : Key}
    {snap : Snapshot} (hsnap : s.latest key = some snap) (hkind : kindAt key = .messages)
    {a b : Item} (ha : a ∈ snap.items) (hb' : b ∈ snap.items) (hid : a.remoteId = b.remoteId) :
    a = b := by
  have hcur := hi.latest key snap hsnap
  -- The row of the UID of an item carries its message.
  have hlive : ∀ item ∈ snap.items, s.store.liveUid key.1 key.2 item.remoteId = some item.uid := by
    intro item hitem
    obtain ⟨k, hk⟩ := hcur.live item.uid (List.mem_map_of_mem hitem)
    obtain ⟨x, hx, hxkey, hsame⟩ := hi.latestShown key snap hsnap item hitem
    have hxkey : x.1 = key := hxkey.trans hcur.key_eq
    have hkeyed := (hn.shown x hx).same hsame
    rw [hxkey, hkind] at hkeyed
    have hbound := (hb x hx).2 k
    rw [hxkey, hsame.uid, hsame.remoteKey] at hbound
    rw [← show item.remoteKey = item.remoteId from hkeyed, ← hbound hk]
    exact hk
  have huid : a.uid = b.uid := by
    have hla := hlive a ha
    rw [hid, hlive b hb'] at hla
    exact (Option.some.inj hla).symm
  have hnodup : snap.uids.Nodup := hcur.valid.ascending.imp fun hlt => Nat.ne_of_lt hlt
  exact List.inj_on_of_nodup_map hnodup ha hb' huid

end Mailbox
end ImapGateway
