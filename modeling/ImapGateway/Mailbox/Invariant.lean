/-
What holds of the service at every moment.

The invariant has three parts: the UIDs, pins and snapshots; the listings under
way; and the tasks with the generations their listings are tagged with.  An
action keeps it as long as the coroutine that performs it does what it owes,
which is a condition on that action alone.
-/
import ImapGateway.Mailbox.Order
import Mathlib.Data.List.Nodup
import Mathlib.Data.List.Pairwise

namespace ImapGateway
namespace Mailbox

/-! ## Snapshots -/

/-- A snapshot the store has not contradicted: its UIDs ascend to below its next
UID, and any UID live beside them came after it. -/
structure Snapshot.Valid (snap : Snapshot) (d : Store.Db) : Prop where
  ascending : snap.uids.Pairwise (· < ·)
  below : ∀ u ∈ snap.uids, u < snap.uidnext
  reached : snap.uidnext ≤ d.nextUid snap.inboxId snap.name
  rest : ∀ k u, d.liveUid snap.inboxId snap.name k = some u → u ∈ snap.uids ∨ snap.uidnext ≤ u

theorem Snapshot.Valid.grows {snap : Snapshot} {d d' : Store.Db} (h : snap.Valid d)
    (hg : d.Grows d') : snap.Valid d' where
  ascending := h.ascending
  below := h.below
  reached := h.reached.trans (hg _ _).1
  rest k u hu := by
    rcases (hg _ _).2 k u hu with hu | hle
    · exact h.rest k u hu
    · exact .inr (h.reached.trans hle)

/-- The latest snapshot of a mailbox: valid, and all its UIDs live. -/
structure Snapshot.Current (snap : Snapshot) (d : Store.Db) (key : Key) : Prop where
  key_eq : snap.key = key
  valid : snap.Valid d
  live : ∀ u ∈ snap.uids, ∃ k, d.liveUid key.1 key.2 k = some u

/-! ## Entries -/

/-- The remote key of an entry is made from its remote id. -/
def Keyed (cfg : Config) (kind : Kind) (e : Entry) : Prop :=
  match kind with
  | .messages => e.remoteKey = e.remoteId
  | .drafts => ∃ rendered, e.remoteKey = contentKey cfg e.remoteId rendered

theorem contentKey_inj {cfg : Config} {id id' : String} {r r' : Bytes}
    (h : contentKey cfg id r = contentKey cfg id' r') : id = id' := by
  have hlen : ∀ r, ("#" ++ cfg.digest r).toList.length = 17 := by
    intro r
    rw [String.toList_append, List.length_append, String.length_toList, String.length_toList,
      cfg.digest_length]
    rfl
  have hl : id.toList ++ ("#" ++ cfg.digest r).toList =
      id'.toList ++ ("#" ++ cfg.digest r').toList := by
    rw [← String.toList_append, ← String.toList_append, ← String.append_assoc,
      ← String.append_assoc]
    exact congrArg String.toList h
  exact String.toList_inj.mp (List.append_inj_left' hl (by rw [hlen, hlen]))

theorem Keyed.id_eq {cfg : Config} {kind : Kind} {e e' : Entry} (h : Keyed cfg kind e)
    (h' : Keyed cfg kind e') (hk : e.remoteKey = e'.remoteKey) : e.remoteId = e'.remoteId := by
  cases kind with
  | messages => exact h.symm.trans (hk.trans h')
  | drafts =>
    obtain ⟨r, hr⟩ := h
    obtain ⟨r', hr'⟩ := h'
    exact contentKey_inj (hr.symm.trans (hk.trans hr'))

/-- A listing under way: of a mailbox there is, its entries of different ids and
all of them seen. -/
structure Listing.Ok (cfg : Config) (l : Listing) : Prop where
  known : l.mdef ∈ mailboxes
  keyed : ∀ e ∈ l.entries, Keyed cfg l.mdef.kind e
  ids : (l.entries.map (·.remoteId)).Nodup
  seen : ∀ e ∈ l.entries, e.remoteId ∈ l.seen

/-- Keyed entries of different ids have different keys. -/
theorem keys_nodup {cfg : Config} {kind : Kind} {entries : List Entry}
    (hkeyed : ∀ e ∈ entries, Keyed cfg kind e) (hids : (entries.map (·.remoteId)).Nodup) :
    (entries.map (·.remoteKey)).Nodup := by
  rw [List.nodup_map_iff_inj_on hids.of_map]
  intro e he e' he' hk
  exact List.inj_on_of_nodup_map hids he he' ((hkeyed e he).id_eq (hkeyed e' he') hk)

theorem Listing.Ok.keys {cfg : Config} {l : Listing} (h : l.Ok cfg) :
    (l.entries.map (·.remoteKey)).Nodup := keys_nodup h.keyed h.ids

/-! ## Pins -/

structure PinsOk (pins : List Pin) : Prop where
  keys : (pins.map (·.remoteKey)).Nodup
  labelled : ∀ p ∈ pins, p.entry.remoteKey = p.remoteKey

theorem PinsOk.filter {pins : List Pin} (h : PinsOk pins) (f : Pin → Bool) :
    PinsOk (pins.filter f) where
  keys := h.keys.sublist (List.filter_sublist.map _)
  labelled p hp := h.labelled p (List.mem_of_mem_filter hp)

variable {s : Service}

theorem PinsOk.pin (h : ∀ key, PinsOk (s.pinned key)) (key' : Key) {remoteKey : String}
    {entry : Entry} (he : entry.remoteKey = remoteKey) (key : Key) :
    PinsOk ((s.pin key' remoteKey entry).pinned key) := by
  by_cases hk : key = key'
  · subst hk
    simp only [Service.pin, Function.update_self]
    split
    · refine ⟨?_, fun p hp => ?_⟩
      · have hmap : ((s.pinned key).map fun p =>
            if p.remoteKey = remoteKey then (⟨remoteKey, s.time + pinTtl, entry⟩ : Pin) else p).map
              (·.remoteKey) = (s.pinned key).map (·.remoteKey) := by
          rw [List.map_map]
          refine List.map_congr_left fun p _ => ?_
          simp only [Function.comp]
          split
          · rename_i hp
            exact hp.symm
          · rfl
        rw [hmap]
        exact (h key).keys
      · obtain ⟨q, hq, rfl⟩ := List.mem_map.mp hp
        split
        · exact he
        · exact (h key).labelled q hq
    · rename_i hany
      refine ⟨?_, fun p hp => ?_⟩
      · rw [List.map_append, List.map_singleton, ← List.concat_eq_append]
        refine (h key).keys.concat fun hmem => hany ?_
        obtain ⟨q, hq, hqk⟩ := List.mem_map.mp hmem
        exact List.any_eq_true.mpr ⟨q, hq, by simpa using hqk⟩
      · rcases List.mem_append.mp hp with hp | hp
        · exact (h key).labelled p hp
        · rw [List.mem_singleton.mp hp]
          exact he
  · simpa [Service.pin, hk] using h key

theorem UidStep.pinsOk {s' : Service} {t : Tid} {p : Act} (h : UidStep s s' t p)
    (hs : ∀ key, PinsOk (s.pinned key)) (key : Key) : PinsOk (s'.pinned key) := by
  cases h with
  | publish l _ _ _ hpins =>
    rw [hpins]
    by_cases hk : key = l.key
    · subst hk
      rw [Function.update_self]
      exact (hs _).filter _
    · rw [Function.update_of_ne hk]
      exact hs key
  | pin key' k e _ hpins he =>
    rw [hpins]
    exact PinsOk.pin hs key' he key
  | unpin key' k _ _ hpins =>
    rw [hpins]
    by_cases hk : key = key'
    · subst hk
      simp only [Service.unpin, Function.update_self]
      exact (hs _).filter _
    · simpa [Service.unpin, hk] using hs key
  | quiet _ hpins =>
    rw [hpins]
    exact hs key

theorem History.pinsOk {cfg : Config} {s₀ : Service} {hs : List Happening}
    (h : History cfg s₀ hs s) (hok : s₀.store.Ok) (hpins : ∀ key, PinsOk (s₀.pinned key))
    (key : Key) : PinsOk (s.pinned key) := by
  have hboth := h.invariant (P := fun s => s.store.Ok ∧ ∀ key, PinsOk (s.pinned key)) ⟨hok, hpins⟩
    fun t p s hs => ⟨(Act.exec_uidStep cfg t p hs.1).1,
      (Act.exec_uidStep cfg t p hs.1).2.pinsOk hs.2⟩
  exact hboth.2 key

/-! ## Publication -/

theorem sortItems_uids (items : List Item) :
    (sortItems items).map (·.uid) = (items.map (·.uid)).insertionSort (· ≤ ·) :=
  List.map_insertionSort _ _ _ _ fun _ _ _ _ => Iff.rfl

/-- The keys a listing publishes are distinct. -/
theorem collected_nodup {l : Listing} (hl : (l.entries.map (·.remoteKey)).Nodup)
    (hp : PinsOk (s.pinned l.key)) : ((s.collected l).map (·.remoteKey)).Nodup := by
  have hperm : ((s.collected l).map (·.remoteKey)).Perm
      ((Service.applyPins s.time (s.pinned l.key) l.entries).2.map (·.remoteKey)) :=
    (List.perm_insertionSort _ _).map _
  rw [hperm.nodup_iff]
  simp only [Service.applyPins, List.map_append, List.map_map]
  have hlabel : ∀ f : Pin → Bool, ((s.pinned l.key).filter f).map
      ((·.remoteKey) ∘ (·.entry) : Pin → String) =
      ((s.pinned l.key).filter f).map (·.remoteKey) := fun f =>
    List.map_congr_left fun p hp' => (hp.filter f).labelled p hp'
  rw [hlabel]
  refine List.Nodup.append hl (hp.filter _).keys ?_
  intro k hk hk'
  obtain ⟨p, hp', rfl⟩ := List.mem_map.mp hk'
  have := (List.mem_filter.mp hp').2
  simp only [Bool.and_eq_true, decide_eq_true_eq] at this
  exact this.1 hk

theorem itemsOf_uids (store : Store.Db) (key : Key) (entries : List Entry) :
    (itemsOf store key entries).map (·.uid) =
      ((entries.map (·.remoteKey)).map fun k =>
        (store.liveUid key.1 key.2 k).getD 0).insertionSort (· ≤ ·) := by
  rw [itemsOf, sortItems_uids, List.map_map, List.map_map]
  rfl

/-- A listing publishes a snapshot that is current. -/
theorem publication_current {cfg : Config} {l : Listing} (hl : l.Ok cfg)
    (hp : PinsOk (s.pinned l.key)) {store : Store.Db} (v : Nat)
    (hrec : Store.Db.Reconciled l.key.1 l.key.2 ((s.collected l).map (·.remoteKey)) s.store store) :
    (s.publication l store v).Current store l.key := by
  have huids : (s.publication l store v).uids = (((s.collected l).map (·.remoteKey)).map fun k =>
      (store.liveUid l.key.1 l.key.2 k).getD 0).insertionSort (· ≤ ·) := itemsOf_uids _ _ _
  have hmem : ∀ u, u ∈ (s.publication l store v).uids ↔
      ∃ k ∈ (s.collected l).map (·.remoteKey), store.liveUid l.key.1 l.key.2 k = some u := by
    intro u
    rw [huids, List.mem_insertionSort, List.mem_map]
    refine exists_congr fun k => and_congr_right fun hk => ?_
    obtain ⟨w, hw⟩ := (hrec.live k).mpr hk
    rw [hw, Option.getD_some, Option.some_inj]
  have hnodup : (s.publication l store v).uids.Nodup := by
    rw [huids, (List.perm_insertionSort _ _).nodup_iff]
    refine (collected_nodup hl.keys hp).map_on fun k hk k' hk' he => ?_
    obtain ⟨w, hw⟩ := (hrec.live k).mpr hk
    obtain ⟨w', hw'⟩ := (hrec.live k').mpr hk'
    rw [hw, hw', Option.getD_some, Option.getD_some] at he
    exact hrec.ok.liveUid_inj hw (he ▸ hw')
  have hsorted : (s.publication l store v).uids.Pairwise (· ≤ ·) := by
    rw [huids]
    exact List.pairwise_insertionSort _ _
  refine ⟨rfl, ⟨?_, fun u hu => ?_, Nat.le_refl _, fun k u hu => ?_⟩, fun u hu => ?_⟩
  · exact (hsorted.and hnodup).imp fun h => Nat.lt_of_le_of_ne h.1 h.2
  · obtain ⟨k, _, hk⟩ := (hmem u).mp hu
    exact hrec.ok.liveUid_lt hk
  · exact .inl ((hmem u).mpr ⟨k, (hrec.live k).mp ⟨u, hu⟩, hu⟩)
  · obtain ⟨k, _, hk⟩ := (hmem u).mp hu
    exact ⟨k, hk⟩

end Mailbox
end ImapGateway
