/-
Listings take effect in order, as long as no two listings of a mailbox overlap.

What a listing publishes replaces the mailbox's view and tombstones what it does
not show.  With one listing of a mailbox at a time, listings publish in the order
they started in, and a UID allocated while one is under way is safe behind its
pin.
-/
import ImapGateway.Mailbox.History

namespace ImapGateway
namespace Mailbox

variable {cfg : Config}

namespace Happening

/-- If a listing starts here, no other one of its mailbox is under way. -/
def Alone (h : Happening) : Prop :=
  ∀ inboxId mdef, h.action = .startListing inboxId mdef →
    ∀ t l, h.before.listings t = some l → l.key ≠ (inboxId, mdef.name)

/-- If a pin is taken off here, the listings under way started after its UID had been
allocated; if it has expired, the listing that publishes did, or shows the key itself. -/
def KeepsPins (h : Happening) : Prop :=
  (∀ key k, h.action = .unpin key k → ∀ t l u, h.before.listings t = some l → l.key = key →
    h.before.store.liveUid key.1 key.2 k = some u → u < l.allocated) ∧
  ∀ l, h.publishing = some l → ∀ p ∈ h.before.pinned l.key, p.expires < h.before.time →
    p.remoteKey ∉ l.entries.map (·.remoteKey) →
    ∀ u, h.before.store.liveUid l.key.1 l.key.2 p.remoteKey = some u → u < l.allocated

/-- The UID `u` of `k` stops being live here. -/
def Tombstones (cfg : Config) (h : Happening) (key : Key) (k : String) (u : Nat) : Prop :=
  h.before.store.liveUid key.1 key.2 k = some u ∧
    (h.after cfg).store.liveUid key.1 key.2 k ≠ some u

end Happening

/-- The listings that published, newest first. -/
def publications (hs : List Happening) : List Listing := hs.filterMap Happening.publishing

/-- No listing published after one of its mailbox that started later. -/
def InOrder (hs : List Happening) : Prop :=
  (publications hs).Pairwise fun l l' => l.key = l'.key → l'.no < l.no

/-- Only a listing that started after a UID was allocated, and does not show its
key, tombstones it. -/
def TombstonedLate (cfg : Config) (hs : List Happening) : Prop :=
  ∀ h ∈ hs, ∀ key k u, h.Tombstones cfg key k u →
    ∃ l, h.publishing = some l ∧ l.key = key ∧ u < l.allocated ∧
      k ∉ l.entries.map (·.remoteKey)

/-- A UID stays live as long as every listing that started after it had been
allocated shows its key. -/
def KeptWhileShown (cfg : Config) (hs : List Happening) : Prop :=
  ∀ key k u, (∀ l ∈ publications hs, l.key = key → u < l.allocated →
    k ∈ l.entries.map (·.remoteKey)) → ∀ h ∈ hs, ¬h.Tombstones cfg key k u

/-- One listing of a mailbox at a time. -/
structure Single (s : Service) : Prop where
  ok : s.store.Ok
  one : ∀ t t' l l', s.listings t = some l → s.listings t' = some l' → l.key = l'.key → t = t'
  labelled : ∀ key, ∀ p ∈ s.pinned key, p.entry.remoteKey = p.remoteKey

/-- Beside that, every UID allocated since a listing started is pinned. -/
structure Apart (s : Service) : Prop extends Single s where
  pinned : ∀ t l, s.listings t = some l → ∀ k u,
    s.store.liveUid l.key.1 l.key.2 k = some u → l.allocated ≤ u →
    ∃ p ∈ s.pinned l.key, p.remoteKey = k

theorem update_some {α β : Type} [DecidableEq α] {f : α → Option β} {a b : α} {v : Option β}
    {x : β} (h : Function.update f a v b = some x) : (b = a ∧ v = some x) ∨ (b ≠ a ∧ f b = some x) := by
  by_cases hb : b = a
  · subst hb
    rw [Function.update_self] at h
    exact .inl ⟨rfl, h⟩
  · rw [Function.update_of_ne hb] at h
    exact .inr ⟨hb, h⟩

/-- A listing under way after a step was under way before, under the same key and
since the same UID, unless it starts there. -/
theorem ListingStep.before {s s' : Service} {t : Tid} {p : Act} (h : ListingStep s s' t p)
    {u : Tid} {l' : Listing} (hl' : s'.listings u = some l') :
    (∃ l, s.listings u = some l ∧ l'.key = l.key ∧ l'.no = l.no ∧ l'.allocated = l.allocated ∧
      ∀ k ∈ l.entries.map (·.remoteKey), k ∈ l'.entries.map (·.remoteKey)) ∨
    (∃ mdef, p = .startListing l'.key.1 mdef ∧ l'.key.2 = mdef.name ∧ u = t ∧
      l'.no = s.aux.started + 1 ∧ l'.allocated = s.store.nextUid l'.key.1 l'.key.2) := by
  cases h with
  | start inboxId mdef hp listings _ =>
    rw [listings] at hl'
    rcases update_some hl' with ⟨hu, he⟩ | ⟨_, he⟩
    · cases he
      exact .inr ⟨mdef, hp, rfl, hu, rfl, rfl⟩
    · exact .inl ⟨l', he, rfl, rfl, rfl, fun _ hk => hk⟩
  | extend l seen entries _ hl listings _ =>
    rw [listings] at hl'
    rcases update_some hl' with ⟨rfl, he⟩ | ⟨_, he⟩
    · cases he
      refine .inl ⟨l, hl, rfl, rfl, rfl, fun k hk => ?_⟩
      rw [List.map_append]
      exact List.mem_append_left _ hk
    · exact .inl ⟨l', he, rfl, rfl, rfl, fun _ hk => hk⟩
  | stop _ listings _ =>
    rw [listings] at hl'
    rcases update_some hl' with ⟨_, he⟩ | ⟨_, he⟩
    · cases he
    · exact .inl ⟨l', he, rfl, rfl, rfl, fun _ hk => hk⟩
  | quiet _ listings _ =>
    rw [listings] at hl'
    exact .inl ⟨l', hl', rfl, rfl, rfl, fun _ hk => hk⟩

theorem ListingStep.started_le {s s' : Service} {t : Tid} {p : Act} (h : ListingStep s s' t p) :
    s.aux.started ≤ s'.aux.started := by
  cases h with
  | start _ _ _ _ h => omega
  | extend _ _ _ _ _ _ h => omega
  | stop _ _ h => omega
  | quiet _ _ h => omega

/-- After a publication the listing that published is no longer under way. -/
theorem ListingStep.stopped {s s' : Service} {t : Tid} {l : Listing}
    (h : ListingStep s s' t .publish) (hl : s.listings t = some l) : s'.listings t = none := by
  cases h with
  | start _ _ hp => cases hp
  | extend _ _ _ hp => cases hp
  | stop _ listings => rw [listings, Function.update_self]
  | quiet hp => exact absurd hl (hp l rfl)

/-! ## One step -/

section Step

variable {h : Happening}

theorem Single.one_step (hs : Single h.before) (ha : h.Alone) {t t' : Tid} {l l' : Listing}
    (hl : (h.after cfg).listings t = some l) (hl' : (h.after cfg).listings t' = some l')
    (hk : l.key = l'.key) : t = t' := by
  have hstep := Act.exec_listingStep cfg h.tid h.action hs.ok
  rcases hstep.before hl with ⟨l₀, hl₀, hk₀, _⟩ | ⟨mdef, hp, hname, ht, _⟩
  · rcases hstep.before hl' with ⟨l₁, hl₁, hk₁, _⟩ | ⟨mdef', hp', hname', _, _⟩
    · exact hs.one t t' l₀ l₁ hl₀ hl₁ (by rw [← hk₀, ← hk₁, hk])
    · exact absurd (by rw [← hk₀, hk, ← hname']) (ha _ mdef' hp' t l₀ hl₀)
  · rcases hstep.before hl' with ⟨l₁, hl₁, hk₁, _⟩ | ⟨_, _, _, ht', _⟩
    · exact absurd (by rw [← hk₁, ← hk, ← hname]) (ha _ mdef hp t' l₁ hl₁)
    · rw [ht, ht']

theorem Single.labelled_step (hs : Single h.before) {key : Key} {p : Pin}
    (hp : p ∈ (h.after cfg).pinned key) : p.entry.remoteKey = p.remoteKey := by
  cases (Act.exec_uidStep cfg h.tid h.action hs.ok).2 with
  | publish l _ _ _ hpins =>
    rw [Happening.after, hpins] at hp
    by_cases he : key = l.key
    · subst he
      rw [Function.update_self] at hp
      exact hs.labelled _ p (mem_applyPins.mp hp).1
    · rw [Function.update_of_ne he] at hp
      exact hs.labelled _ p hp
  | pin key' k e _ hpins he =>
    rcases (Service.mem_of_pin hpins).mp hp with ⟨_, rfl⟩ | ⟨hp, _⟩
    · exact he
    · exact hs.labelled _ p hp
  | unpin _ _ _ _ hpins => exact hs.labelled _ p ((Service.mem_of_unpin hpins).mp hp).1
  | quiet _ hpins =>
    rw [Happening.after, hpins] at hp
    exact hs.labelled _ p hp

theorem Single.step (hs : Single h.before) (ha : h.Alone) : Single (h.after cfg) where
  ok := (Act.exec_uidStep cfg h.tid h.action hs.ok).1
  one _ _ _ _ hl hl' hk := hs.one_step ha hl hl' hk
  labelled _ _ hpin := hs.labelled_step hpin

theorem Apart.pinned_step (hs : Apart h.before) (hp : h.KeepsPins) {t : Tid} {l : Listing}
    (hl : (h.after cfg).listings t = some l) {k : String} {u : Nat}
    (hu : (h.after cfg).store.liveUid l.key.1 l.key.2 k = some u) (hle : l.allocated ≤ u) :
    ∃ p ∈ (h.after cfg).pinned l.key, p.remoteKey = k := by
  have hstep := Act.exec_listingStep cfg h.tid h.action hs.ok
  rcases hstep.before hl with ⟨l₀, hl₀, hk₀, _, hal, _⟩ | ⟨mdef, hstart, _, _, _, hal⟩
  · rw [hk₀] at hu ⊢
    rw [hal] at hle
    have hold : h.before.store.liveUid l₀.key.1 l₀.key.2 k = some u →
        ∃ p ∈ h.before.pinned l₀.key, p.remoteKey = k :=
      fun hu => hs.pinned t l₀ hl₀ k u hu hle
    cases (Act.exec_uidStep cfg h.tid h.action hs.ok).2 with
    | publish l₁ hpub hl₁ hrec hpins =>
      have hne : l₀.key ≠ l₁.key := fun he => by
        have := hs.one _ _ _ _ hl₀ hl₁ he
        subst this
        rw [hpub] at hstep
        rw [Happening.after, hpub, hstep.stopped hl₁] at hl
        cases hl
      have hsame := hrec.others l₀.key.1 l₀.key.2 fun he => hne (Prod.ext he.1 he.2)
      rw [Happening.after, hpins, Function.update_of_ne hne]
      exact hold ((hsame.1 k).symm.trans hu)
    | pin key k' e hal' hpins =>
      by_cases hkk : l₀.key = key ∧ k = k'
      · exact ⟨⟨k', _, e⟩, (Service.mem_of_pin hpins).mpr (.inl ⟨hkk.1, rfl⟩), hkk.2.symm⟩
      · have hu₀ : h.before.store.liveUid l₀.key.1 l₀.key.2 k = some u := by
          by_cases he : l₀.key = key
          · subst he
            cases hlive : h.before.store.liveUid l₀.key.1 l₀.key.2 k with
            | none =>
              have := (hal'.fresh k u hlive hu).1
              exact absurd ⟨rfl, List.mem_singleton.mp this⟩ hkk
            | some u₀ => exact (hal'.kept k u₀ hlive).symm.trans hu
          · exact ((hal'.others _ _ fun hx => he (Prod.ext hx.1 hx.2)).1 k).symm.trans hu
        obtain ⟨p, hp, hpk⟩ := hold hu₀
        exact ⟨p, (Service.mem_of_pin hpins).mpr (.inr ⟨hp, fun hx => hkk ⟨hx.1, hpk.symm.trans hx.2⟩⟩), hpk⟩
    | unpin key k' hpk hstore hpins =>
      rw [Happening.after, hstore] at hu
      obtain ⟨p, hpin, hk⟩ := hold hu
      refine ⟨p, (Service.mem_of_unpin hpins).mpr ⟨hpin, fun hx => ?_⟩, hk⟩
      have hx₂ : k = k' := hk.symm.trans hx.2
      rw [hx.1] at hu
      have := hp.1 key k' hpk t l₀ u hl₀ hx.1 (hx₂ ▸ hu)
      omega
    | quiet hstore hpins =>
      rw [Happening.after, hpins]
      exact hold (((hstore _ _).1 k).symm.trans hu)
  · have hstore : (h.after cfg).store = h.before.store := by rw [Happening.after, hstart]; rfl
    rw [hstore] at hu
    have := hs.ok.liveUid_lt hu
    omega

theorem Apart.step (hs : Apart h.before) (ha : h.Alone) (hp : h.KeepsPins) :
    Apart (h.after cfg) where
  toSingle := hs.toSingle.step ha
  pinned _ _ hl _ _ hu hle := hs.pinned_step hp hl hu hle

/-- While listings of a mailbox do not overlap, only a listing that started after
a UID was allocated tombstones it. -/
theorem Apart.tombstones (hs : Apart h.before) (hp : h.KeepsPins) {key : Key} {k : String}
    {u : Nat} (ht : h.Tombstones cfg key k u) :
    ∃ l, h.publishing = some l ∧ l.key = key ∧ u < l.allocated ∧
      k ∉ l.entries.map (·.remoteKey) := by
  obtain ⟨hu, hgone⟩ := ht
  cases (Act.exec_uidStep cfg h.tid h.action hs.ok).2 with
  | publish l hpub hl hrec _ =>
    have hpublishing := Happening.publishing_eq_some.mpr ⟨hpub, hl⟩
    by_cases he : l.key = key
    · subst he
      have hnot : k ∉ (h.before.collected l).map (·.remoteKey) :=
        fun hk => hgone (hrec.kept k hk u hu)
      have hnot' : k ∉ l.entries.map (·.remoteKey) := by
        intro hk
        obtain ⟨e, he, rfl⟩ := List.mem_map.mp hk
        exact hnot (List.mem_map_of_mem (mem_collected.mpr (.inl he)))
      refine ⟨l, hpublishing, rfl, ?_, hnot'⟩
      by_contra hle
      obtain ⟨p, hpin, rfl⟩ := hs.pinned h.tid l hl k u hu (by omega)
      by_cases hexp : p.expires < h.before.time
      · exact hle (hp.2 l hpublishing p hpin hexp hnot' u hu)
      · refine hnot (List.mem_map.mpr ⟨p.entry, ?_, hs.labelled _ p hpin⟩)
        exact mem_collected.mpr (.inr ⟨p, hpin, hnot', by omega, rfl⟩)
    · exact absurd (((hrec.others _ _ fun hx => he (Prod.ext hx.1.symm hx.2.symm)).1 k).trans hu) hgone
  | pin key' k' e hal _ =>
    by_cases he : key = key'
    · subst he
      exact absurd (hal.kept k u hu) hgone
    · exact absurd (((hal.others _ _ fun hx => he (Prod.ext hx.1 hx.2)).1 k).trans hu) hgone
  | unpin _ _ _ hstore _ => exact absurd (by rw [Happening.after, hstore, hu]) hgone
  | quiet hstore _ => exact absurd (((hstore _ _).1 k).trans hu) hgone

end Step

/-! ## Runs -/

section Runs

variable {s₀ s : Service} {hs : List Happening}

theorem Single.of_history (h : History cfg s₀ hs s) (h₀ : Single s₀)
    (hc : ∀ x ∈ hs, x.Alone) : Single s := by
  induction h with
  | nil => exact h₀
  | cons x _ ih =>
    exact (ih fun y hy => hc y (List.mem_cons_of_mem _ hy)).step (hc x (List.mem_cons_self ..))

theorem Apart.of_history (h : History cfg s₀ hs s) (h₀ : Apart s₀)
    (hc : ∀ x ∈ hs, x.Alone ∧ x.KeepsPins) : Apart s := by
  induction h with
  | nil => exact h₀
  | cons x _ ih =>
    obtain ⟨ha, hp⟩ := hc x (List.mem_cons_self ..)
    exact (ih fun y hy => hc y (List.mem_cons_of_mem _ hy)).step ha hp

/-- The count of listings started only grows. -/
theorem History.started_mono (h : History cfg s₀ hs s) (hok : s₀.store.Ok) {z : Happening}
    (hz : z ∈ hs) : z.before.aux.started ≤ s.aux.started := by
  induction h with
  | nil => cases hz
  | @cons hs x hx ih =>
    have hxok := hx.storeOk hok
    have hle := (Act.exec_listingStep cfg x.tid x.action hxok).started_le
    rcases List.mem_cons.mp hz with rfl | hz
    · exact hle
    · exact (ih hz).trans hle

/-- The listings under way started after every listing of their mailbox that
published. -/
structure Later (hs : List Happening) (s : Service) : Prop where
  started : ∀ t l, s.listings t = some l → l.no ≤ s.aux.started
  past : ∀ l' ∈ publications hs, l'.no ≤ s.aux.started ∧
    ∀ t l, s.listings t = some l → l.key = l'.key → l'.no < l.no

theorem Later.step {h : Happening} (hl : Later hs h.before) (hs' : Single h.before) :
    Later (h :: hs) (h.after cfg) := by
  have hstep := Act.exec_listingStep cfg h.tid h.action hs'.ok
  have hle := hstep.started_le
  have hstarted : ∀ t l, (h.after cfg).listings t = some l → l.no ≤ (h.after cfg).aux.started := by
    intro t l ht
    cases hstep with
    | start inboxId mdef _ listings started =>
      rw [Happening.after, listings] at ht
      rw [Happening.after, started]
      rcases update_some ht with ⟨_, he⟩ | ⟨_, ht⟩
      · cases he
        exact Nat.le_refl _
      · exact Nat.le_succ_of_le (hl.started t l ht)
    | extend l₀ seen entries _ hl₀ listings started =>
      rw [Happening.after, listings] at ht
      rw [Happening.after, started]
      rcases update_some ht with ⟨rfl, he⟩ | ⟨_, ht⟩
      · cases he
        exact hl.started _ l₀ hl₀
      · exact hl.started t l ht
    | stop _ listings started =>
      rw [Happening.after, listings] at ht
      rw [Happening.after, started]
      rcases update_some ht with ⟨_, he⟩ | ⟨_, ht⟩
      · cases he
      · exact hl.started t l ht
    | quiet _ listings started =>
      rw [Happening.after, listings] at ht
      rw [Happening.after, started]
      exact hl.started t l ht
  have hpast : ∀ l' ∈ publications hs, l'.no ≤ (h.after cfg).aux.started ∧
      ∀ t l, (h.after cfg).listings t = some l → l.key = l'.key → l'.no < l.no := by
    intro l' hl'
    obtain ⟨hno, hlater⟩ := hl.past l' hl'
    refine ⟨hno.trans hle, fun t l ht hk => ?_⟩
    rcases hstep.before ht with ⟨l₀, hl₀, hk₀, hno₀, _⟩ | ⟨_, _, _, _, hno₀, _⟩
    · rw [hno₀]
      exact hlater t l₀ hl₀ (hk₀.symm.trans hk)
    · omega
  refine ⟨hstarted, fun l' hl' => ?_⟩
  rw [publications, List.filterMap_cons] at hl'
  cases hpub : h.publishing with
  | none =>
    rw [hpub] at hl'
    exact hpast l' hl'
  | some l₁ =>
    rw [hpub] at hl'
    rcases List.mem_cons.mp hl' with rfl | hl'
    · obtain ⟨hp, hl₁⟩ := Happening.publishing_eq_some.mp hpub
      refine ⟨(hl.started _ _ hl₁).trans hle, fun t l ht hk => ?_⟩
      -- The listing that published is gone, and no other one of the mailbox was under way.
      rcases hstep.before ht with ⟨l₀, hl₀, hk₀, _⟩ | ⟨_, hstart, _⟩
      · have := hs'.one _ _ _ _ hl₀ hl₁ (hk₀.symm.trans hk)
        subst this
        rw [hp] at hstep
        rw [Happening.after, hp, hstep.stopped hl₁] at ht
        cases ht
      · rw [hp] at hstart
        cases hstart
    · exact hpast l' hl'

/-- Listings of a mailbox that do not overlap publish in the order they started in. -/
theorem inOrder_of_alone (h : History cfg s₀ hs s) (h₀ : Single s₀)
    (hno : ∀ t, s₀.listings t = none) (hc : ∀ x ∈ hs, x.Alone) :
    InOrder hs ∧ Later hs s := by
  induction h with
  | nil =>
    refine ⟨List.Pairwise.nil, { started := fun t l hl => ?_, past := fun l hl => ?_ }⟩
    · rw [hno] at hl
      cases hl
    · cases hl
  | @cons hs x hx ih =>
    have hc' : ∀ y ∈ hs, y.Alone := fun y hy => hc y (List.mem_cons_of_mem _ hy)
    obtain ⟨hord, hlater⟩ := ih hc'
    refine ⟨?_, hlater.step (Single.of_history hx h₀ hc')⟩
    rw [InOrder, publications, List.filterMap_cons]
    cases hpub : x.publishing with
    | none => exact hord
    | some l =>
      refine List.Pairwise.cons (fun l' hl' hk => ?_) hord
      exact (hlater.past l' hl').2 x.tid l (Happening.publishing_eq_some.mp hpub).2 hk

theorem tombstonedLate_of_alone (h : History cfg s₀ hs s) (h₀ : Apart s₀)
    (hc : ∀ x ∈ hs, x.Alone ∧ x.KeepsPins) : TombstonedLate cfg hs := by
  induction h with
  | nil => exact fun y hy => absurd hy List.not_mem_nil
  | @cons hs x hx ih =>
    have hc' : ∀ y ∈ hs, y.Alone ∧ y.KeepsPins := fun y hy => hc y (List.mem_cons_of_mem _ hy)
    intro y hy key k u ht
    rcases List.mem_cons.mp hy with rfl | hy
    · exact (Apart.of_history hx h₀ hc').tombstones (hc _ (List.mem_cons_self ..)).2 ht
    · exact ih hc' y hy key k u ht

theorem TombstonedLate.keptWhileShown (h : TombstonedLate cfg hs) : KeptWhileShown cfg hs := by
  intro key k u hshown x hx ht
  obtain ⟨l, hpub, hl, hlt, hk⟩ := h x hx key k u ht
  exact hk (hshown l (List.mem_filterMap.mpr ⟨x, hx, hpub⟩) hl hlt)

/-- A listing under way is run by a coroutine of the history. -/
theorem History.listing_tid (h : History cfg s₀ hs s) (hok : s₀.store.Ok)
    (hno : ∀ t, s₀.listings t = none) {t : Tid} {l : Listing} (hl : s.listings t = some l) :
    t ∈ hs.map (·.tid) := by
  induction h generalizing l with
  | nil =>
    rw [hno] at hl
    cases hl
  | @cons hs x hx ih =>
    have hstep := Act.exec_listingStep cfg x.tid x.action (hx.storeOk hok)
    rcases hstep.before hl with ⟨l₁, hl₁, _⟩ | ⟨_, _, _, ht, _⟩
    · exact List.mem_cons_of_mem _ (ih hl₁)
    · rw [ht]
      exact List.mem_cons_self ..

/-- A listing under way started after a happening of the past, or was under way
there and has lost nothing since. -/
theorem History.listing_since (h : History cfg s₀ hs s) (hok : s₀.store.Ok) {z : Happening}
    (hz : z ∈ hs) {t : Tid} {l : Listing} (hl : s.listings t = some l) :
    z.before.aux.started < l.no ∨ ∃ l₀, z.before.listings t = some l₀ ∧ l₀.key = l.key ∧
      ∀ k ∈ l₀.entries.map (·.remoteKey), k ∈ l.entries.map (·.remoteKey) := by
  induction h generalizing l with
  | nil => cases hz
  | @cons hs x hx ih =>
    have hxok := hx.storeOk hok
    have hstep := Act.exec_listingStep cfg x.tid x.action hxok
    rcases hstep.before hl with ⟨l₁, hl₁, hk, hno, _, hsub⟩ | ⟨_, _, _, _, hno, _⟩
    · rcases List.mem_cons.mp hz with rfl | hz
      · exact .inr ⟨l₁, hl₁, hk.symm, hsub⟩
      · rcases ih hz hl₁ with hlt | ⟨l₀, hl₀, hk₀, hsub₀⟩
        · exact .inl (by omega)
        · exact .inr ⟨l₀, hl₀, hk₀.trans hk.symm, fun k hk => hsub k (hsub₀ k hk)⟩
    · left
      have hmono : z.before.aux.started ≤ x.before.aux.started := by
        rcases List.mem_cons.mp hz with rfl | hz
        · exact Nat.le_refl _
        · exact hx.started_mono hok hz
      omega

end Runs

end Mailbox
end ImapGateway
