/-
Announced UIDs are honoured, as long as no two listings of a mailbox overlap.

APPEND and COPY hand out a UID before any listing shows the item.  The pin keeps
it in the view until a listing does, and from then on every listing has to show
it by itself.
-/
import ImapGateway.Mailbox.Order

namespace ImapGateway
namespace Mailbox

variable {cfg : Config}

namespace Happening

/-- The mailbox and the remote key of the UID an APPEND or a COPY hands out here. -/
def announced (cfg : Config) (h : Happening) : Option (Key × String) :=
  match h.action with
  | .appendCommit inboxId created rendered =>
    some ((inboxId, drafts.name), contentKey cfg (orEmpty created.draftId) rendered)
  | .copyItem inboxId item _ => some ((inboxId, trash.name), item.remoteId)
  | _ => none

/-- A listing of the mailbox under way here has found the key. -/
def Finds (h : Happening) (key : Key) (k : String) : Prop :=
  ∃ t l, h.before.listings t = some l ∧ l.key = key ∧ k ∈ l.entries.map (·.remoteKey)

/-- The snapshot published here contains the UID `u`, which the store binds to
`k`, as the item of an entry of `k`. -/
def Shows (cfg : Config) (h : Happening) (key : Key) (k : String) (u : Nat) : Prop :=
  (h.after cfg).store.liveUid key.1 key.2 k = some u ∧
    ∃ l snap e, h.publishing = some l ∧ (h.after cfg).latest key = some snap ∧
      e ∈ h.before.collected l ∧ e.remoteKey = k ∧ e.build u ∈ snap.items

end Happening

/-- Once a listing has found the key, every listing that starts later finds it
before it publishes. -/
def Persists (hs : List Happening) (key : Key) (k : String) : Prop :=
  hs.Pairwise fun y z => z.Finds key k → ∀ l, y.publishing = some l → l.key = key →
    z.before.aux.started < l.no → k ∈ l.entries.map (·.remoteKey)

/-- The time has come no further than `deadline`, or a listing had found the key
by then. -/
def Timely (hs : List Happening) (time deadline : Nat) (key : Key) (k : String) : Prop :=
  time ≤ deadline ∨ ∃ z ∈ hs, z.before.time ≤ deadline ∧ z.Finds key k

/-- Every snapshot published after a UID was announced shows it, unless it is
removed through the gateway, a listing no longer finds what one has found, or
the pin runs out before any listing has. -/
def Honours (cfg : Config) (hs : List Happening) : Prop :=
  ∀ later y newer x older key k u l, hs = later ++ y :: (newer ++ x :: older) →
    x.announced cfg = some (key, k) → (x.after cfg).store.liveUid key.1 key.2 k = some u →
    (∀ z ∈ newer, z.action ≠ .unpin key k) → Persists (y :: (newer ++ x :: older)) key k →
    Timely (newer ++ x :: older) y.before.time (x.before.time + pinTtl) key k →
    y.publishing = some l → l.key = key → y.Shows cfg key k u

/-- The UID is live and safe: behind a pin that lasts up to the deadline, or
because a listing has found the key and the listings under way started after
that or have found it themselves. -/
structure Honoured (hs : List Happening) (s : Service) (key : Key) (k : String) (u : Nat)
    (deadline : Nat) : Prop where
  live : s.store.liveUid key.1 key.2 k = some u
  since : deadline ≤ s.time + pinTtl
  safe : (∃ p ∈ s.pinned key, p.remoteKey = k ∧ deadline ≤ p.expires) ∨
    ∃ z ∈ hs, z.Finds key k ∧ ∀ t l, s.listings t = some l → l.key = key →
      k ∈ l.entries.map (·.remoteKey) ∨ z.before.aux.started < l.no

/-! ## One step -/

theorem Service.reconcile_time (s : Service) (key : Key) (keys : List (String × String)) :
    (s.reconcile key keys).1.time = s.time := rfl

theorem Act.exec_time (cfg : Config) (t : Tid) (p : Act) (s : Service) :
    s.time ≤ (p.exec cfg t s).time := by
  cases p with
  | tick d => exact Nat.le_add_right _ _
  | publish =>
    simp only [Act.exec, Service.publish]
    split
    · exact Nat.le_refl _
    · rw [Service.reconcile_time]
  | collectMessage m =>
    rcases Service.collectMessage_cases cfg s t m with heq | ⟨l, _, _, heq⟩ <;>
      rw [Act.exec, heq]
  | collectDraft d rendered =>
    simp only [Act.exec, Service.collectDraft]
    split <;> exact Nat.le_refl _
  | copyItem inboxId item result =>
    obtain ⟨aux, haux⟩ := Service.settlePatch_eq (s.copyItem t inboxId item result) t
    rw [Act.exec, haux]
    exact Nat.le_refl _
  | setFlagCommit key item add remove result =>
    obtain ⟨aux, haux⟩ := Service.settlePatch_eq (s.setFlagCommit key item add remove result) t
    rw [Act.exec, haux]
    simp only [Service.setFlagCommit, Service.replaceItem]
    split <;> (try split) <;> exact Nat.le_refl _
  | expungeCommit inboxId item result =>
    obtain ⟨aux, haux⟩ := Service.settlePatch_eq (s.expungeCommit inboxId item result) t
    rw [Act.exec, haux]
    exact Nat.le_refl _
  | reap n =>
    simp only [Act.exec, Service.reap]
    split <;> exact Nat.le_refl _
  | applyPatch =>
    simp only [Act.exec, Service.applyPatch]
    split <;> exact Nat.le_refl _
  | losePatch => exact Nat.le_refl _
  | _ => exact Nat.le_refl _

section Step

variable {h : Happening} {hs : List Happening} {s₀ : Service} {key : Key} {k : String} {u : Nat}
  {deadline : Nat}

theorem Timely.before (ht : Timely (h :: hs) (h.after cfg).time deadline key k) :
    Timely hs h.before.time deadline key k := by
  rcases ht with ht | ⟨z, hz, hle, hf⟩
  · exact .inl ((Act.exec_time cfg h.tid h.action h.before).trans ht)
  · rcases List.mem_cons.mp hz with rfl | hz
    · exact .inl hle
    · exact .inr ⟨z, hz, hle, hf⟩

/-- What a listing publishes while the UID is honoured includes its key, found by
the listing itself or pinned past its publication. -/
theorem Honoured.publish (hist : History cfg s₀ hs h.before) (h₀ : Single s₀)
    (hc : ∀ x ∈ hs, x.Alone) (hh : Honoured hs h.before key k u deadline)
    (hpersist : Persists (h :: hs) key k) (ht : Timely hs h.before.time deadline key k)
    {l : Listing} (hpub : h.publishing = some l) (hl : l.key = key) :
    k ∈ l.entries.map (·.remoteKey) ∨
      ∃ p ∈ h.before.pinned key, p.remoteKey = k ∧ deadline ≤ p.expires ∧
        h.before.time ≤ deadline := by
  have hunder := (Happening.publishing_eq_some.mp hpub).2
  have hpersist' := (List.pairwise_cons.mp hpersist).1
  rcases hh.safe with ⟨p, hp, hk, hexp⟩ | ⟨z, hz, hf, hsafe⟩
  · rcases ht with ht | ⟨z, hz, _, hf⟩
    · exact .inr ⟨p, hp, hk, hexp, ht⟩
    · left
      rcases hist.listing_since h₀.ok hz hunder with hlt | ⟨l₀, hl₀, hk₀, hsub⟩
      · exact hpersist' z hz hf l hpub hl hlt
      · -- The listing was under way when the key was found, so it is the one that found it.
        obtain ⟨t, l', hl', hk', hmem⟩ := hf
        obtain ⟨older, hsuf, hold⟩ := hist.before_of_mem hz
        have hone := Single.of_history hold h₀ fun x hx => hc x (hsuf.subset hx)
        have := hone.one _ _ _ _ hl' hl₀ (by rw [hk', hk₀, hl])
        subst this
        rw [hl'] at hl₀
        cases hl₀
        exact hsub k hmem
  · left
    rcases hsafe h.tid l hunder hl with hk | hlt
    · exact hk
    · exact hpersist' z hz hf l hpub hl hlt

theorem Honoured.shows (hist : History cfg s₀ hs h.before) (h₀ : Single s₀)
    (hc : ∀ x ∈ hs, x.Alone) (hh : Honoured hs h.before key k u deadline)
    (hpersist : Persists (h :: hs) key k) (ht : Timely hs h.before.time deadline key k)
    {l : Listing} (hpub : h.publishing = some l) (hl : l.key = key) : h.Shows cfg key k u := by
  obtain ⟨hact, hunder⟩ := Happening.publishing_eq_some.mp hpub
  have hs' := Single.of_history hist h₀ hc
  obtain ⟨store, watermark, v, hrec, heq⟩ := Service.publish_eq hs'.ok hunder
  have hafter : h.after cfg = h.before.publish h.tid := by rw [Happening.after, hact]; rfl
  obtain ⟨e, he, hek⟩ : ∃ e ∈ h.before.collected l, e.remoteKey = k := by
    rcases hh.publish hist h₀ hc hpersist ht hpub hl with hk | ⟨p, hp, hpk, hexp, htime⟩
    · obtain ⟨e, he, hek⟩ := List.mem_map.mp hk
      exact ⟨e, mem_collected.mpr (.inl he), hek⟩
    · by_cases hk : k ∈ l.entries.map (·.remoteKey)
      · obtain ⟨e, he, hek⟩ := List.mem_map.mp hk
        exact ⟨e, mem_collected.mpr (.inl he), hek⟩
      · refine ⟨p.entry, mem_collected.mpr (.inr ⟨p, by rw [hl]; exact hp, ?_, ?_, rfl⟩), ?_⟩
        · rwa [hpk]
        · omega
        · rw [hs'.labelled key p hp, hpk]
  subst hl
  have hlive : store.liveUid l.key.1 l.key.2 k = some u :=
    hrec.kept k (hek ▸ List.mem_map_of_mem he) u hh.live
  refine ⟨by rw [hafter, heq]; exact hlive, l, h.before.publication l store v, e, hpub, ?_, he, hek,
    ?_⟩
  · rw [hafter, heq]
    exact Function.update_self ..
  · refine mem_sortItems.mpr (List.mem_map.mpr ⟨e, he, ?_⟩)
    rw [hek, hlive, Option.getD_some]

theorem Honoured.step (hist : History cfg s₀ hs h.before) (h₀ : Single s₀)
    (hc : ∀ x ∈ hs, x.Alone) (hh : Honoured hs h.before key k u deadline)
    (hpersist : Persists (h :: hs) key k) (ht : Timely hs h.before.time deadline key k)
    (hunpin : h.action ≠ .unpin key k) : Honoured (h :: hs) (h.after cfg) key k u deadline := by
  have hs' := Single.of_history hist h₀ hc
  have hstep := Act.exec_listingStep cfg h.tid h.action hs'.ok
  have htime := Act.exec_time cfg h.tid h.action h.before
  have hsince : deadline ≤ (h.after cfg).time + pinTtl := by
    have := hh.since
    simp only [Happening.after]
    omega
  -- Past a step that publishes no listing of the mailbox, listings found have not lost the key.
  have hfound : (∃ z ∈ hs, z.Finds key k ∧ ∀ t l, h.before.listings t = some l → l.key = key →
      k ∈ l.entries.map (·.remoteKey) ∨ z.before.aux.started < l.no) →
      ∃ z ∈ h :: hs, z.Finds key k ∧ ∀ t l, (h.after cfg).listings t = some l → l.key = key →
        k ∈ l.entries.map (·.remoteKey) ∨ z.before.aux.started < l.no := by
    rintro ⟨z, hz, hf, hsafe⟩
    refine ⟨z, List.mem_cons_of_mem _ hz, hf, fun t l hl hk => ?_⟩
    rcases hstep.before hl with ⟨l₀, hl₀, hk₀, hno, _, hsub⟩ | ⟨_, _, _, _, hno, _⟩
    · rcases hsafe t l₀ hl₀ (hk₀ ▸ hk) with hmem | hlt
      · exact .inl (hsub k hmem)
      · exact .inr (by omega)
    · right
      have := hist.started_mono h₀.ok hz
      omega
  cases (Act.exec_uidStep cfg h.tid h.action hs'.ok).2 with
  | publish l hact hunder hrec hpins =>
    have hpub := Happening.publishing_eq_some.mpr ⟨hact, hunder⟩
    by_cases hl : l.key = key
    · refine ⟨(hh.shows hist h₀ hc hpersist ht hpub hl).1, hsince, ?_⟩
      by_cases hmem : k ∈ l.entries.map (·.remoteKey)
      · refine .inr ⟨h, List.mem_cons_self .., ⟨h.tid, l, hunder, hl, hmem⟩, fun t l' hl' hk' => ?_⟩
        rcases hstep.before hl' with ⟨l₀, hl₀, hk₀, _⟩ | ⟨_, hp, _⟩
        · have := hs'.one _ _ _ _ hl₀ hunder (by rw [← hk₀, hk', hl])
          subst this
          rw [hact] at hstep
          rw [Happening.after, hact, hstep.stopped hunder] at hl'
          cases hl'
        · rw [hact] at hp
          cases hp
      · rcases hh.publish hist h₀ hc hpersist ht hpub hl with hk | ⟨p, hp, hpk, hexp, hle⟩
        · exact absurd hk hmem
        · refine .inl ⟨p, ?_, hpk, hexp⟩
          rw [Happening.after, hpins, ← hl, Function.update_self]
          exact mem_applyPins.mpr ⟨hl ▸ hp, by rwa [hpk], by omega⟩
    · have hne : key ≠ l.key := Ne.symm hl
      have hsame := hrec.others key.1 key.2 fun he => hne (Prod.ext he.1 he.2)
      refine ⟨(hsame.1 k).trans hh.live, hsince, ?_⟩
      rw [Happening.after, hpins, Function.update_of_ne hne]
      exact hh.safe.imp_right hfound
  | pin key' k' e hal hpins _ =>
    refine ⟨?_, hsince, ?_⟩
    · by_cases he : key = key'
      · subst he
        exact hal.kept k u hh.live
      · exact ((hal.others _ _ fun hx => he (Prod.ext hx.1 hx.2)).1 k).trans hh.live
    · rcases hh.safe with ⟨p, hp, hpk, hexp⟩ | hf
      · left
        by_cases he : key = key' ∧ k = k'
        · exact ⟨⟨k', _, e⟩, (Service.mem_of_pin hpins).mpr (.inl ⟨he.1, rfl⟩), he.2.symm, hh.since⟩
        · refine ⟨p, (Service.mem_of_pin hpins).mpr (.inr ⟨hp, fun hx => he ⟨hx.1, ?_⟩⟩), hpk, hexp⟩
          exact hpk.symm.trans hx.2
      · exact .inr (hfound hf)
  | unpin key' k' hact hstore hpins =>
    refine ⟨by rw [Happening.after, hstore]; exact hh.live, hsince, ?_⟩
    rcases hh.safe with ⟨p, hp, hpk, hexp⟩ | hf
    · refine .inl ⟨p, (Service.mem_of_unpin hpins).mpr ⟨hp, fun hx => hunpin ?_⟩, hpk, hexp⟩
      rw [hact, hx.1, ← hx.2, hpk]
    · exact .inr (hfound hf)
  | quiet hstore hpins =>
    refine ⟨((hstore _ _).1 k).trans hh.live, hsince, ?_⟩
    rw [Happening.after, hpins]
    exact hh.safe.imp_right hfound

/-- A UID is honoured from its announcement on. -/
theorem Honoured.of_announced (hok : h.before.store.Ok) (ha : h.announced cfg = some (key, k))
    (hu : (h.after cfg).store.liveUid key.1 key.2 k = some u) :
    Honoured (h :: hs) (h.after cfg) key k u (h.before.time + pinTtl) := by
  have htime := Act.exec_time cfg h.tid h.action h.before
  refine ⟨hu, by simp only [Happening.after]; omega, .inl ?_⟩
  have hpin : ∃ p ∈ (h.after cfg).pinned key,
      p.remoteKey = k ∧ p.expires = h.before.time + pinTtl := by
    rw [Happening.announced] at ha
    split at ha
    · rename_i inboxId created rendered hact
      cases ha
      obtain ⟨store, watermark, cache, _, _, heq⟩ :=
        Service.appendCommit_eq cfg hok inboxId created rendered
      rw [Happening.after, hact, Act.exec, heq]
      exact ⟨_, Service.mem_pin.mpr (.inl ⟨rfl, rfl⟩), rfl, rfl⟩
    · rename_i inboxId item result hact
      cases ha
      obtain ⟨store, watermark, _, _, heq⟩ := Service.copyItem_eq hok h.tid inboxId item result
      obtain ⟨aux, haux⟩ :=
        Service.settlePatch_eq (h.before.copyItem h.tid inboxId item result) h.tid
      rw [Happening.after, hact, Act.exec, haux, heq]
      exact ⟨_, Service.mem_pin.mpr (.inl ⟨rfl, rfl⟩), rfl, rfl⟩
    · cases ha
  obtain ⟨p, hp, hk, hexp⟩ := hpin
  exact ⟨p, hp, hk, by omega⟩

end Step

/-! ## Runs -/

section Runs

variable {s₀ s : Service} {x : Happening} {newer older : List Happening} {key : Key} {k : String}
  {u : Nat}

theorem Honoured.of_history (hist : History cfg s₀ (newer ++ x :: older) s) (h₀ : Single s₀)
    (hc : ∀ z ∈ newer ++ x :: older, z.Alone) (ha : x.announced cfg = some (key, k))
    (hu : (x.after cfg).store.liveUid key.1 key.2 k = some u)
    (hunpin : ∀ z ∈ newer, z.action ≠ .unpin key k)
    (hpersist : Persists (newer ++ x :: older) key k)
    (ht : Timely (newer ++ x :: older) s.time (x.before.time + pinTtl) key k) :
    Honoured (newer ++ x :: older) s key k u (x.before.time + pinTtl) := by
  induction newer generalizing s with
  | nil =>
    cases hist with
    | cons _ hist => exact .of_announced (hist.storeOk h₀.ok) ha hu
  | cons y newer ih =>
    cases hist with
    | cons _ hist =>
      have hc' : ∀ z ∈ newer ++ x :: older, z.Alone := fun z hz => hc z (List.mem_cons_of_mem _ hz)
      have hih := ih hist hc' (fun z hz => hunpin z (List.mem_cons_of_mem _ hz))
        (List.pairwise_cons.mp hpersist).2 ht.before
      exact hih.step hist h₀ hc' hpersist ht.before (hunpin y (List.mem_cons_self ..))

/-- A snapshot published after a UID was announced shows it. -/
theorem shows_of_announced {y : Happening} {l : Listing}
    (hist : History cfg s₀ (y :: (newer ++ x :: older)) s) (h₀ : Single s₀)
    (hc : ∀ z ∈ newer ++ x :: older, z.Alone) (ha : x.announced cfg = some (key, k))
    (hu : (x.after cfg).store.liveUid key.1 key.2 k = some u)
    (hunpin : ∀ z ∈ newer, z.action ≠ .unpin key k)
    (hpersist : Persists (y :: (newer ++ x :: older)) key k)
    (ht : Timely (newer ++ x :: older) y.before.time (x.before.time + pinTtl) key k)
    (hpub : y.publishing = some l) (hl : l.key = key) : y.Shows cfg key k u := by
  cases hist with
  | cons _ hist =>
    have hh := Honoured.of_history hist h₀ hc ha hu hunpin (List.pairwise_cons.mp hpersist).2 ht
    exact hh.shows hist h₀ hc hpersist ht hpub hl

theorem honours_of_alone {hs : List Happening} (hist : History cfg s₀ hs s) (h₀ : Single s₀)
    (hc : ∀ z ∈ hs, z.Alone) : Honours cfg hs := by
  intro later y newer x older key k u l heq ha hu hunpin hpersist ht hpub hl
  subst heq
  obtain ⟨_, hist⟩ := hist.suffix
  exact shows_of_announced hist h₀
    (fun z hz => hc z (List.mem_append_right _ (List.mem_cons_of_mem _ hz)))
    ha hu hunpin hpersist ht hpub hl

end Runs

end Mailbox
end ImapGateway
