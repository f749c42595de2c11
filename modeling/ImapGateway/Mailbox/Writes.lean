/-
Mutations bump what they wrote to.

As long as no answer cuts it short, a mutation that ends after a successful write
has bumped its mailboxes since that write.  The rest of what handlers call on
the service, flags, bytes and sizes, only keeps the invariant.
-/
import ImapGateway.Mailbox.Freshness

namespace ImapGateway
namespace Mailbox

open Async

variable {cfg : Config} {R : Regime} {W : Prop} {t : Tid} {s s' : Service}

/-- Under gentle answers, nothing written is left without a bump. -/
def Settled (R : Regime) (t : Tid) (s : Service) : Prop := R.gentle → ¬Pending t s

theorem Settled.owes (h : Settled R t s) : Owes cfg R t .endMutation s := by
  intro hB m hm w hw key hk
  by_contra hlt
  exact h hB ⟨m, w, key, hm, hw, hk, by omega⟩

/-- Inside a mutation that last wrote when `wrote` listings had started. -/
structure Mutating (cfg : Config) (R : Regime) (t : Tid) (keys : List Key) (tolerant : Bool)
    (wrote : Option Nat) (s : Service) : Prop where
  stands : Stands cfg R t (some ⟨keys, tolerant, wrote⟩) s
  past : ∀ w, wrote = some w → w ≤ s.aux.started

variable {keys : List Key} {tolerant : Bool} {wrote : Option Nat}

theorem Stands.inv {m : Option Mutation} (h : Stands cfg R t m s) : Inv cfg R s :=
  h.elim fun _ h => h.inv

theorem Stands.mutation {m : Option Mutation} (h : Stands cfg R t m s) : s.aux.mutations t = m :=
  h.elim fun _ h => h.mutation

theorem Mutating.rely (h : Mutating cfg R t keys tolerant wrote s) (hr : Rely cfg R t s s') :
    Mutating cfg R t keys tolerant wrote s' :=
  ⟨h.stands.rely hr, fun w hw => (h.past w hw).trans (hr h.stands.inv).2.1.started⟩

theorem Mutating.act {p : Act} (h : Mutating cfg R t keys tolerant wrote s) (ho : Owes cfg R t p s)
    (hp : p.plain = true) : Mutating cfg R t keys tolerant wrote (p.exec cfg t s) :=
  ⟨h.stands.act ho hp, fun w hw => (h.past w hw).trans (h.stands.inv.evolve t p).started⟩

theorem Mutating.settled_none (h : Mutating cfg R t keys tolerant none s) : Settled R t s := by
  rintro _ ⟨m, w, key, hm, hw, _⟩
  rw [h.stands.mutation] at hm
  cases hm
  cases hw

/-- A successful write. -/
theorem Mutating.write (h : Mutating cfg R t keys tolerant wrote s) :
    Mutating cfg R t keys tolerant (some s.aux.started) (Act.wrote.exec cfg t s) := by
  obtain ⟨⟨since, hat⟩, _⟩ := h
  refine ⟨⟨since, hat.inv.step trivial, ?_, hat.since, fun n ht => ?_⟩, ?_⟩
  · simp [Act.exec, Service.noteWrite, hat.mutation]
  · exact hat.inv.running_kept rfl (hat.running n ht).choose_spec.1
      (hat.running n ht).choose_spec.2
  · rintro w hw
    cases hw
    exact Nat.le_refl _

/-- Bumping every mailbox of the mutation settles it. -/
theorem Mutating.settled (h : Mutating cfg R t keys tolerant wrote s)
    (hb : ∀ w, wrote = some w → ∀ key ∈ keys, w ≤ s.aux.bumpedAt key) : Settled R t s := by
  rintro _ ⟨m, w, key, hm, hw, hk, hlt⟩
  rw [h.stands.mutation] at hm
  cases hm
  have := hb w hw key hk
  omega

/-- An exception that reaches a mutation which does not tolerate it, or a
cancellation, finds it settled. -/
theorem Mutating.settled_exc (h : Mutating cfg R t keys tolerant wrote s) {q : Req} {a : q.Answer}
    {e : Exc} (he : a.exc = some e) (hg : R.gentle → Gentle cfg t q a s)
    (hcut : tolerant = false ∨ e = .cancelled) : Settled R t s := by
  intro hB hp
  obtain ⟨hne, m, hm, htol⟩ := (hg hB).exc e he hp
  rw [h.stands.mutation] at hm
  cases hm
  rcases hcut with hf | hc
  · rw [hf] at htol
    cases htol
  · exact hne hc

/-- A mutation is what its body is, if the body ends settled however it ends. -/
theorem mutation_wp {α : Type} {m : Option Mutation} {body : Svc α} {Q : α → Service → Prop}
    {P : Service → Prop} (h : Stands cfg R t m s) (hs : P s)
    (hP : ∀ s s', Evolve s s' → P s → P s')
    (hbody : ∀ s, Mutating cfg R t keys tolerant none s → P s → body.wp (svcLogic cfg R W t)
      (fun a s => (∃ wrote, Mutating cfg R t keys tolerant wrote s) ∧ Settled R t s ∧ Q a s)
      (fun _ s => (∃ wrote, Mutating cfg R t keys tolerant wrote s) ∧ Settled R t s) s)
    (hQ : ∀ a s, Q a s → Q a (Act.endMutation.exec cfg t s)) :
    (mutation keys tolerant body).wp (svcLogic cfg R W t)
      (fun a s => Stands cfg R t none s ∧ Q a s) (fun _ => Stands cfg R t none) s := by
  obtain ⟨since, h⟩ := h
  have hbegin : Mutating cfg R t keys tolerant none
      ((Act.beginMutation keys tolerant).exec cfg t s) := by
    refine ⟨⟨since, h.inv.step trivial, Function.update_self .., h.since, fun n ht => ?_⟩,
      fun _ hw => by cases hw⟩
    exact h.inv.running_kept rfl (h.running n ht).choose_spec.1
      (h.running n ht).choose_spec.2
  have hend : ∀ s, (∃ wrote, Mutating cfg R t keys tolerant wrote s) → Settled R t s →
      Stands cfg R t none (Act.endMutation.exec cfg t s) := by
    rintro s ⟨wrote, ⟨since, hat⟩, _⟩ hset
    refine ⟨since, hat.inv.step hset.owes, Function.update_self .., hat.since, fun n ht => ?_⟩
    exact hat.inv.running_kept rfl (hat.running n ht).choose_spec.1
      (hat.running n ht).choose_spec.2
  rw [mutation]
  simp only [Coro.bind_eq, Coro.attempt]
  refine perform_bind_wp ⟨trivial, rfl⟩ ((Coro.wp_bind _ _).mpr ((Coro.wp_handle _ _).mpr
    ((Coro.wp_bind _ _).mpr ?_)))
  refine Coro.wp_mono (fun a s hs => ?_) (fun e s hs => ?_)
    (hbody _ hbegin (hP _ _ (h.inv.evolve t (.beginMutation keys tolerant)) hs))
  · exact perform_bind_wp ⟨hs.2.1.owes, rfl⟩ ⟨hend s hs.1 hs.2.1, hQ a s hs.2.2⟩
  · exact perform_bind_wp ⟨hs.2.owes, rfl⟩ (hend s hs.1 hs.2)

/-! ## APPEND -/

theorem Mutating.ask_wp {q : Req} {Q : q.Value → Service → Prop} {E : Exc → Service → Prop}
    (h : Mutating cfg R t keys tolerant wrote s) (hasks : q.writes = true → W)
    (hok : ∀ s' (v : q.Value), Mutating cfg R t keys tolerant wrote s' →
      (R.gentle → Gentle cfg t q (.ok v) s') → Q v s')
    (herr : ∀ s' e, Mutating cfg R t keys tolerant wrote s' →
      (R.gentle → Gentle cfg t q (.error e) s') → E e s') :
    (ask q).wp (svcLogic cfg R W t) Q E s := by
  refine Mailbox.ask_wp hasks fun s' hr a _ hg _ => ?_
  cases a with
  | ok v => exact hok s' v (h.rely hr) hg
  | error e => exact herr s' e (h.rely hr) hg

/-- First contact writes nothing. -/
theorem Mutating.firstContact_wp (api : Client) (inboxId name : String)
    (h : Mutating cfg R t keys tolerant none s) :
    (firstContact cfg t api inboxId name).wp (svcLogic cfg R W t)
      (fun _ => Mutating cfg R t keys tolerant none)
      (fun _ => Mutating cfg R t keys tolerant none) s := by
  rw [firstContact]
  simp only [Coro.bind_eq, Coro.pure_eq]
  refine state_bind_wp ?_
  split
  · refine (Coro.wp_bind _ _).mpr ?_
    exact Coro.wp_mono (fun _ _ hs => ⟨hs.1, fun _ hw => by cases hw⟩)
      (fun _ _ hs => ⟨hs, fun _ hw => by cases hw⟩)
      (syncForced_wp api name h.stands)
  · exact h

/-- A bump of all its mailboxes settles a mutation for good. -/
theorem Mutating.bump_wp (key : Key) (h : Mutating cfg R t keys tolerant wrote s) :
    Mutating cfg R t keys tolerant wrote ((Act.bump key).exec cfg t s) ∧
      ∀ w, wrote = some w → w ≤ ((Act.bump key).exec cfg t s).aux.bumpedAt key := by
  refine ⟨h.act trivial rfl, fun w hw => ?_⟩
  simp only [Act.exec, Service.bump, Function.update_self]
  exact h.past w hw

/-- The UID of an appended draft is below the next one. -/
theorem appendCommit_uid_lt {inboxId : String} {created : DraftJson} {rendered : Bytes}
    (h : s.store.Ok) : ((s.appendCommit cfg inboxId created rendered).store.liveUid inboxId drafts.name
      (contentKey cfg (orEmpty created.draftId) rendered)).getD 0 <
        (s.appendCommit cfg inboxId created rendered).store.nextUid inboxId drafts.name := by
  obtain ⟨store, watermark, cache, hok, hal, heq⟩ :=
    Service.appendCommit_eq cfg h inboxId created rendered
  obtain ⟨u, hu⟩ := hal.live _ (List.mem_singleton_self _)
  rw [heq]
  show (store.liveUid _ _ _).getD 0 < store.nextUid _ _
  rw [hu]
  exact hok.liveUid_lt hu

theorem appendCreated_wp (api : Client) (inboxId : String) (created : DraftJson)
    (h : Mutating cfg R t [(inboxId, drafts.name)] tolerant wrote s)
    (hu : R.gentle → orEmpty created.draftId ≠ "" ∧ (cfg.renderDraft created inboxId).isSome) :
    (appendCreated cfg api inboxId created).wp (svcLogic cfg R W t)
      (fun (r : Nat × Nat × Nat) s =>
        (∃ wrote, Mutating cfg R t [(inboxId, drafts.name)] tolerant wrote s) ∧
        Settled R t s ∧ r.2.1 < s.store.nextUid inboxId drafts.name)
      (fun _ s => (∃ wrote, Mutating cfg R t [(inboxId, drafts.name)] tolerant wrote s) ∧
        Settled R t s) s := by
  rw [appendCreated]
  simp only [Coro.bind_eq, Coro.pure_eq, Coro.throw_eq]
  split
  · rename_i hid
    exact ⟨⟨_, h⟩, fun hB => absurd hid (hu hB).1⟩
  · split
    · rename_i hnone
      refine ⟨⟨_, h⟩, fun hB => ?_⟩
      have := (hu hB).2
      rw [hnone] at this
      cases this
    · rename_i rendered hrendered
      have hobtained := h.act (p := .obtained (.draft inboxId (orEmpty created.draftId) rendered))
        ⟨created, hrendered⟩ rfl
      have hown : Owes cfg R t (.appendCommit inboxId created rendered)
          ((Act.obtained (.draft inboxId (orEmpty created.draftId) rendered)).exec cfg t s) :=
        Function.update_self ..
      have hcommit := hobtained.act hown rfl
      obtain ⟨hbump, hle⟩ := hcommit.bump_wp (inboxId, drafts.name)
      have ho : Owes cfg R t (.createTask (.resync api inboxId) 0)
          ((Act.bump (inboxId, drafts.name)).exec cfg t
            ((Act.appendCommit inboxId created rendered).exec cfg t
              ((Act.obtained (.draft inboxId (orEmpty created.draftId) rendered)).exec cfg t s))) :=
        ⟨Nat.zero_le _, nofun⟩
      have htask := hbump.act ho rfl
      refine perform_bind_wp ⟨⟨created, hrendered⟩, rfl⟩ (perform_bind_wp ⟨hown, rfl⟩
        (state_bind_wp (perform_bind_wp ⟨trivial, rfl⟩ (perform_bind_wp ⟨ho, rfl⟩
          ⟨⟨_, htask⟩, htask.settled fun w hw key hk => ?_, ?_⟩))))
      · rw [List.mem_singleton.mp hk]
        exact hle w hw
      · have hlt := @appendCommit_uid_lt cfg _ inboxId created rendered hobtained.stands.inv.store
        simpa only [svcLogic, Act.exec, Service.createTask, Service.bump] using hlt

theorem appendDraft_wp {m : Option Mutation} (api : Client) (inboxId : String)
    (fields : DraftFields) (clientId : Option String) (h : Stands cfg R t m s) :
    (appendDraft cfg t api inboxId fields clientId).wp (svcLogic cfg R W t)
      (fun (r : Nat × Nat × Nat) s => Stands cfg R t none s ∧ r.2.1 < s.store.nextUid inboxId drafts.name)
      (fun _ => Stands cfg R t none) s := by
  rw [appendDraft]
  simp only [Coro.bind_eq]
  refine mutation_wp (Q := fun (r : Nat × Nat × Nat) s => r.2.1 < s.store.nextUid inboxId drafts.name)
    (P := fun _ => True) h trivial (fun _ _ _ _ => trivial) (fun s hs _ => ?_) fun _ _ hQ => hQ
  refine (Coro.wp_bind _ _).mpr (Coro.wp_mono (fun _ s hs => ?_)
    (fun _ _ hs => ⟨⟨none, hs⟩, hs.settled_none⟩) (hs.firstContact_wp api inboxId drafts.name))
  refine (Coro.wp_bind _ _).mpr (hs.ask_wp nofun (fun s created hs hg => ?_)
    fun s e hs _ => ⟨⟨none, hs⟩, hs.settled_none⟩)
  exact perform_bind_wp ⟨trivial, rfl⟩
    (appendCreated_wp api inboxId created hs.write fun hB => (hg hB).usable)

/-! ## PATCHes -/

/-- Under honest answers, the answer to the PATCH carries the labels it left. -/
def Answered (R : Regime) (t : Tid) (inboxId messageId : String) (add remove : List String)
    (result : PatchResult) (s : Service) : Prop :=
  R.honest → ∃ n labels, labelSet result.labels = labels ∧
    s.aux.patches t = some ⟨inboxId, messageId, add, remove, some (n, labels)⟩

/-- The record of a PATCH is of the PATCH that was sent. -/
theorem Spares.answered {p : Patch} {n : Nat} {labels : Labels} {inboxId messageId : String}
    {add remove : List String} (h : Spares t s s')
    (hs : s.aux.patches t = some ⟨inboxId, messageId, add, remove, none⟩)
    (hp : s'.aux.patches t = some p) (ha : p.applied = some (n, labels)) :
    s'.aux.patches t = some ⟨inboxId, messageId, add, remove, some (n, labels)⟩ := by
  have hsame := h.patch
  rw [hs, hp] at hsame
  obtain ⟨i, m, a, r, applied⟩ := p
  simp only [Option.map_some, Patch.asked, Option.some.injEq, Patch.mk.injEq] at hsame ha
  obtain ⟨rfl, rfl, rfl, rfl, _⟩ := hsame
  rw [hp, ha]

/-- A PATCH, around anything the others keep. -/
theorem updateLabels_wp {I : Service → Prop} {Q : PatchResult → Service → Prop}
    {E : Exc → Service → Prop} (hW : W) (api : Client) (inboxId messageId : String)
    (add remove : List String) (hinv : ∀ s, I s → Inv cfg R s)
    (hrely : ∀ s s', I s → Rely cfg R t s s' → I s')
    (hsent : I ((Act.sendPatch ⟨inboxId, messageId, add, remove, none⟩).exec cfg t s))
    (hok : ∀ s' v, I s' → Answered R t inboxId messageId add remove v s' → Q v s')
    (herr : ∀ s' e, I s' → (R.gentle → Gentle cfg t
      (.updateLabels api inboxId messageId add remove) (.error e) s') →
        E e (Act.losePatch.exec cfg t s')) :
    (updateLabels api inboxId messageId add remove).wp (svcLogic cfg R W t) Q E s := by
  rw [updateLabels]
  simp only [Coro.bind_eq, Coro.throw_eq]
  refine perform_bind_wp ⟨rfl, rfl⟩ ((Coro.wp_handle _ _).mpr ?_)
  refine Mailbox.ask_wp (fun _ => hW) fun s' hr a _ hg hh => ?_
  have h' := hrely _ s' hsent hr
  cases a with
  | ok v =>
    refine hok s' v h' fun hR => ?_
    obtain ⟨p, n, labels, hp, ha, hlabels⟩ := hh hR
    exact ⟨n, labels, hlabels,
      (hr (hinv _ hsent)).2.2.answered (Function.update_self ..) hp ha⟩
  | error e => exact perform_bind_wp ⟨trivial, rfl⟩ (herr s' e h' hg)

/-! ## COPY -/

/-- In the loop of a copy of `items`, with `rest` still to come: a write shows in
the pairs, and the pairs are those of the items before `rest`. -/
structure Copying (cfg : Config) (R : Regime) (t : Tid) (keys : List Key) (inboxId : String)
    (mdef : MailboxDef) (items rest : List Item) (wrote : Option Nat) (s : Service) : Prop where
  mutating : Mutating cfg R t keys false wrote s
  silent : s.copied t = [] → wrote = none
  pairs : (s.copied t).map (·.1) ++ rest.map (·.uid) = items.map (·.uid)
  below : ∀ x ∈ s.copied t, x.2 < s.store.nextUid inboxId trash.name
  known : ∀ item ∈ rest, s.Knows inboxId mdef item

variable {inboxId : String} {mdef : MailboxDef} {items rest : List Item}

theorem Copying.rely (h : Copying cfg R t keys inboxId mdef items rest wrote s)
    (hr : Rely cfg R t s s') : Copying cfg R t keys inboxId mdef items rest wrote s' := by
  obtain ⟨_, hev, hsp⟩ := hr h.mutating.stands.inv
  refine ⟨h.mutating.rely hr, ?_, ?_, fun x hx => ?_, fun item hi => hev.knows (h.known item hi)⟩
  · rw [hsp.copied]
    exact h.silent
  · rw [hsp.copied]
    exact h.pairs
  · rw [hsp.copied] at hx
    exact Nat.lt_of_lt_of_le (h.below x hx) (hev.store inboxId trash.name).1

/-- What copying an item adds to the pairs. -/
theorem copyItem_copied (cfg : Config) (t : Tid) (h : s.store.Ok) (inboxId : String) (item : Item)
    (result : PatchResult) :
    ∃ u, ((Act.copyItem inboxId item result).exec cfg t s).copied t = s.copied t ++ [(item.uid, u)] ∧
      u < ((Act.copyItem inboxId item result).exec cfg t s).store.nextUid inboxId trash.name := by
  obtain ⟨store, watermark, hok, hal, heq⟩ := Service.copyItem_eq h t inboxId item result
  obtain ⟨heldFrom, hsettle⟩ := Service.settlePatch_eq (s.copyItem t inboxId item result) t
  obtain ⟨u, hu⟩ := hal.live _ (List.mem_singleton_self _)
  rw [Act.exec, hsettle, heq]
  refine ⟨u, ?_, hok.liveUid_lt hu⟩
  show Function.update s.copied t _ t = _
  rw [Function.update_self, hu]
  rfl

theorem copyMessage_wp (hW : W) (api : Client) (hkind : mdef.kind = .messages) {item : Item}
    (h : ∃ wrote, Copying cfg R t keys inboxId mdef items (item :: rest) wrote s) :
    (copyMessage api inboxId item).wp (svcLogic cfg R W t)
      (fun _ s => ∃ wrote, Copying cfg R t keys inboxId mdef items rest wrote s)
      (fun _ s => (∃ wrote, Mutating cfg R t keys false wrote s) ∧ Settled R t s) s := by
  obtain ⟨wrote, h⟩ := h
  have hsent : Copying cfg R t keys inboxId mdef items (item :: rest) wrote
      ((Act.sendPatch ⟨inboxId, item.remoteId, ["trash"], [], none⟩).exec cfg t s) :=
    ⟨h.mutating.act rfl rfl, h.silent, h.pairs, h.below, fun i hi => (h.known i hi).congr rfl⟩
  rw [copyMessage]
  simp only [Coro.bind_eq]
  refine (Coro.wp_bind _ _).mpr (updateLabels_wp hW api inboxId item.remoteId ["trash"] []
    (fun _ hs => hs.mutating.stands.inv) (fun _ _ hs hr => hs.rely hr) hsent
    (fun s result hs hanswer => ?_) fun s e hs hg => ?_)
  · have hwrite := hs.mutating.write
    have hown : Owes cfg R t (.copyItem inboxId item result) (Act.wrote.exec cfg t s) :=
      ⟨⟨⟨mdef, hkind, (hs.known item (List.mem_cons_self ..)).congr rfl⟩, hanswer⟩, hs.below⟩
    have hev := hwrite.stands.inv.evolve t (.copyItem inboxId item result)
    obtain ⟨u, hcopied, hu⟩ := copyItem_copied cfg t hwrite.stands.inv.store inboxId
      item result
    refine perform_bind_wp ⟨trivial, rfl⟩
      ⟨⟨hown, rfl⟩, _, hwrite.act hown rfl, fun he => ?_, ?_, fun x hx => ?_, fun i hi => ?_⟩
    · rw [show (svcLogic cfg R W t).exec = Act.exec cfg t from rfl, hcopied] at he
      exact absurd he (by simp)
    · have hpairs := hs.pairs
      rw [show (svcLogic cfg R W t).exec = Act.exec cfg t from rfl, hcopied, ← hpairs]
      simp [Act.exec, Service.noteWrite]
    · rw [show (svcLogic cfg R W t).exec = Act.exec cfg t from rfl, hcopied] at hx
      rcases List.mem_append.mp hx with hx | hx
      · exact Nat.lt_of_lt_of_le (hs.below x hx) (hev.store inboxId trash.name).1
      · rw [List.mem_singleton.mp hx]
        exact hu
    · exact hev.knows ((hs.known i (List.mem_cons_of_mem _ hi)).congr rfl)
  · have hlost := hs.mutating.act (p := .losePatch) trivial rfl
    exact ⟨⟨wrote, hlost⟩, hs.mutating.settled_exc rfl hg (.inl rfl)⟩

/-- All the items have been shown in the mailbox. -/
def AllKnown (inboxId : String) (mdef : MailboxDef) (items : List Item) (s : Service) : Prop :=
  ∀ item ∈ items, s.Knows inboxId mdef item

theorem AllKnown.evolve (h : Evolve s s') (hs : AllKnown inboxId mdef items s) :
    AllKnown inboxId mdef items s' := fun item hi => h.knows (hs item hi)

theorem copyToTrash_wp {m : Option Mutation} (hW : W) (api : Client) (inboxId : String)
    (mdef : MailboxDef) (items : List Item) (hkind : mdef.kind = .messages)
    (hknown : AllKnown inboxId mdef items s) (h : Stands cfg R t m s) :
    (copyToTrash cfg t api inboxId mdef items).wp (svcLogic cfg R W t)
      (fun pairs s => Stands cfg R t none s ∧ pairs = s.copied t ∧
        pairs.map (·.1) = items.map (·.uid) ∧
        ∀ x ∈ pairs, x.2 < s.store.nextUid inboxId trash.name)
      (fun _ => Stands cfg R t none) s := by
  rw [copyToTrash]
  simp only [Coro.bind_eq, Coro.pure_eq]
  refine mutation_wp (Q := fun pairs s => pairs = s.copied t ∧
    pairs.map (·.1) = items.map (·.uid) ∧ ∀ x ∈ pairs, x.2 < s.store.nextUid inboxId trash.name)
    (P := AllKnown inboxId mdef items) h hknown (fun _ _ => AllKnown.evolve) (fun s hs hk => ?_)
    fun _ _ hQ => hQ
  refine (Coro.wp_bind _ _).mpr (Coro.wp_mono (fun _ s hs => ?_)
    (fun _ _ hs => ⟨⟨none, hs.1⟩, hs.1.settled_none⟩)
    (wp_evolve (fun _ _ => AllKnown.evolve) hs.stands.inv hk
      (hs.firstContact_wp api inboxId trash.name)))
  obtain ⟨hs, hk⟩ := hs
  have hcopying : Copying cfg R t [(inboxId, mdef.name), (inboxId, trash.name)] inboxId mdef items
      items none (Act.beginCopy.exec cfg t s) := by
    refine ⟨hs.act trivial rfl, fun _ => rfl, by simp [Act.exec], ?_,
      fun item hi => (hk item hi).congr rfl⟩
    simp [Act.exec]
  refine perform_bind_wp ⟨trivial, rfl⟩ ((Coro.wp_bind _ _).mpr (Coro.wp_mono (fun _ s hs => ?_)
    (fun _ _ hs => hs) (Coro.wp_each
      (I := fun rest s => ∃ wrote, Copying cfg R t _ inboxId mdef items rest wrote s)
      (fun item rest s hs => copyMessage_wp hW api hkind hs) items ⟨none, hcopying⟩)))
  obtain ⟨wrote, hs⟩ := hs
  have hpairs := hs.pairs
  rw [List.map_nil, List.append_nil] at hpairs
  refine state_bind_wp ?_
  split
  · obtain ⟨h₁, hle₁⟩ := hs.mutating.bump_wp (inboxId, mdef.name)
    obtain ⟨h₂, hle₂⟩ := h₁.bump_wp (inboxId, trash.name)
    refine perform_bind_wp ⟨trivial, rfl⟩ (perform_bind_wp ⟨trivial, rfl⟩
      ⟨⟨wrote, h₂⟩, h₂.settled fun w hw key hk => ?_, rfl, hpairs, hs.below⟩)
    have hmono := (h₁.stands.inv.evolve t (.bump (inboxId, trash.name))).bumped (inboxId, mdef.name)
    rcases List.mem_cons.mp hk with rfl | hk
    · exact (hle₁ w hw).trans hmono
    · rw [List.mem_singleton.mp hk]
      exact hle₂ w hw
  · rename_i hempty
    have hnone := hs.silent (not_not.mp hempty)
    subst hnone
    exact ⟨⟨none, hs.mutating⟩, hs.mutating.settled_none, rfl, hpairs, hs.below⟩

/-! ## EXPUNGE -/

/-- In the loop of a removal: a write shows in the outcome so far. -/
def Removing (cfg : Config) (R : Regime) (t : Tid) (keys : List Key) (removed : Bool)
    (s : Service) : Prop :=
  ∃ wrote, Mutating cfg R t keys true wrote s ∧ (removed = false → wrote = none)

theorem expungeItem_wp (hW : W) (api : Client) (item : Item)
    (h : Mutating cfg R t keys true wrote s) (hknown : s.Knows inboxId mdef item) :
    (expungeItem cfg api inboxId mdef item).wp (svcLogic cfg R W t)
      (fun _ s => ∃ wrote, Mutating cfg R t keys true wrote s)
      (fun e s => Mutating cfg R t keys true wrote s ∧ (e = .cancelled → Settled R t s)) s := by
  rw [expungeItem]
  simp only [Coro.bind_eq, Coro.throw_eq]
  split
  · refine (Coro.wp_bind _ _).mpr (h.ask_wp nofun (fun s current hs _ => ?_)
      fun s e hs hg => ⟨hs, fun he => hs.settled_exc rfl hg (.inr he)⟩)
    split
    · exact ⟨hs, nofun⟩
    · split
      · exact ⟨hs, nofun⟩
      · refine (Coro.wp_bind _ _).mpr (hs.ask_wp (fun _ => hW) (fun s _ hs _ => ?_)
          fun s e hs hg => ⟨hs, fun he => hs.settled_exc rfl hg (.inr he)⟩)
        exact perform_bind_wp ⟨trivial, rfl⟩ ⟨⟨trivial, rfl⟩, _,
          hs.write.act (p := .unpin (inboxId, mdef.name) item.remoteKey) trivial rfl⟩
  · rename_i hkind
    refine (Coro.wp_bind _ _).mpr (updateLabels_wp
      (I := fun s => Mutating cfg R t keys true wrote s ∧ s.Knows inboxId mdef item) hW api inboxId
      item.remoteId ["trash"] [] (fun _ hs => hs.1.stands.inv)
      (fun s s' hs hr => ⟨hs.1.rely hr, (hr hs.1.stands.inv).2.1.knows hs.2⟩)
      ⟨h.act rfl rfl, hknown.congr rfl⟩ (fun s result hs hanswer => ?_) fun s e hs hg => ?_)
    · have hown : Owes cfg R t (.expungeCommit inboxId item result) (Act.wrote.exec cfg t s) :=
        ⟨⟨mdef, hkind, hs.2.congr rfl⟩, hanswer⟩
      exact perform_bind_wp ⟨trivial, rfl⟩ ⟨⟨hown, rfl⟩, _, hs.1.write.act hown rfl⟩
    · exact ⟨hs.1.act (p := .losePatch) trivial rfl,
        fun he => hs.1.settled_exc rfl hg (.inr he)⟩

theorem expungeRound_wp (hW : W) (api : Client) (r : List Exc × Bool) (item : Item)
    (h : Removing cfg R t keys r.2 s) (hknown : s.Knows inboxId mdef item) :
    (expungeRound cfg api inboxId mdef r item).wp (svcLogic cfg R W t)
      (fun r => Removing cfg R t keys r.2)
      (fun _ s => (∃ wrote, Mutating cfg R t keys true wrote s) ∧ Settled R t s) s := by
  obtain ⟨wrote, h, hr⟩ := h
  rw [expungeRound]
  simp only [Coro.bind_eq, Coro.pure_eq, Coro.throw_eq, Coro.attempt]
  refine (Coro.wp_bind _ _).mpr ((Coro.wp_handle _ _).mpr ((Coro.wp_bind _ _).mpr ?_))
  refine Coro.wp_mono (fun _ s hs => ?_) (fun e s hs => ?_)
    (expungeItem_wp hW api item h hknown)
  · obtain ⟨wrote', hs⟩ := hs
    exact ⟨wrote', hs, (by simp)⟩
  · rw [Coro.wp_ret]
    split
    · rename_i he
      cases he
    · rename_i he
      cases he
      exact ⟨⟨wrote, hs.1⟩, hs.2 rfl⟩
    · exact ⟨wrote, hs.1, hr⟩

theorem expungeItems_wp {m : Option Mutation} (hW : W) (api : Client) (inboxId : String)
    (mdef : MailboxDef) (items : List Item) (hknown : AllKnown inboxId mdef items s)
    (h : Stands cfg R t m s) :
    (expungeItems cfg api inboxId mdef items).wp (svcLogic cfg R W t)
      (fun _ => Stands cfg R t none) (fun _ => Stands cfg R t none) s := by
  rw [expungeItems]
  simp only [Coro.bind_eq, Coro.pure_eq]
  refine Coro.wp_mono (fun _ _ hs => hs.1) (fun _ _ hs => hs)
    (mutation_wp (Q := fun _ _ => True) (P := AllKnown inboxId mdef items) h hknown
      (fun _ _ => AllKnown.evolve) (fun s hs hk => ?_) fun _ _ _ => trivial)
  have hstart : Removing cfg R t [(inboxId, mdef.name)] false s ∧ AllKnown inboxId mdef items s :=
    ⟨⟨none, hs, fun _ => rfl⟩, hk⟩
  refine (Coro.wp_bind _ _).mpr (Coro.wp_mono (fun r s hs => ?_) (fun _ _ hs => hs)
    (Coro.wp_foldEach (I := fun r rest s => Removing cfg R t [(inboxId, mdef.name)] r.2 s ∧
      AllKnown inboxId mdef rest s) (fun r item rest s hs => ?_) ([], false) items hstart))
  · obtain ⟨⟨wrote, hs, hr⟩, _⟩ := hs
    split
    · obtain ⟨h₁, hle⟩ := hs.bump_wp (inboxId, mdef.name)
      refine perform_bind_wp ⟨trivial, rfl⟩ ⟨⟨wrote, h₁⟩, h₁.settled fun w hw key hk => ?_, trivial⟩
      rw [List.mem_singleton.mp hk]
      exact hle w hw
    · rename_i hremoved
      have hnone := hr (by simpa using hremoved)
      subst hnone
      exact ⟨⟨none, hs⟩, hs.settled_none, trivial⟩
  · have hrest : AllKnown inboxId mdef rest s := fun i hi => hs.2 i (List.mem_cons_of_mem _ hi)
    have hinv : Inv cfg R s := hs.1.elim fun _ h => h.1.stands.inv
    exact Coro.wp_mono (fun _ _ hs => hs) (fun _ _ hs => hs.1)
      (wp_evolve (fun _ _ => AllKnown.evolve) hinv hrest
        (expungeRound_wp hW api r item hs.1 (hs.2 item (List.mem_cons_self ..))))

/-! ## Flags -/

/-- The coroutine stands, and the item it works on has been shown. -/
def Reads (cfg : Config) (R : Regime) (t : Tid) (m : Option Mutation) (inboxId : String)
    (mdef : MailboxDef) (item : Item) (s : Service) : Prop :=
  Stands cfg R t m s ∧ s.Knows inboxId mdef item

variable {m : Option Mutation} {item : Item}

theorem Reads.rely (h : Reads cfg R t m inboxId mdef item s) (hr : Rely cfg R t s s') :
    Reads cfg R t m inboxId mdef item s' :=
  ⟨h.1.rely hr, (hr h.1.inv).2.1.knows h.2⟩

theorem Reads.act {p : Act} (h : Reads cfg R t m inboxId mdef item s) (ho : Owes cfg R t p s)
    (hp : p.plain = true) : Reads cfg R t m inboxId mdef item (p.exec cfg t s) :=
  ⟨h.1.act ho hp, (h.1.inv.evolve t p).knows h.2⟩

/-- What `set_flag` returns is the same item. -/
theorem setFlag_wp (hW : W) (api : Client) (flag : Flag) (value : Bool)
    (h : Reads cfg R t m inboxId mdef item s) :
    (setFlag api inboxId mdef item flag value).wp (svcLogic cfg R W t)
      (fun item' s => Reads cfg R t m inboxId mdef item' s ∧ item.Same item')
      (fun _ => Reads cfg R t m inboxId mdef item) s := by
  have hpatch : ∀ add remove, mdef.kind = .messages → Coro.wp (svcLogic cfg R W t) (do
      let result ← updateLabels api inboxId item.remoteId add remove
      perform (.setFlagCommit (inboxId, mdef.name) item add remove result)
      return Service.flaggedItem item (Service.flaggedLabels item add remove result))
      (fun item' s => Reads cfg R t m inboxId mdef item' s ∧ item.Same item')
      (fun _ => Reads cfg R t m inboxId mdef item) s := by
    intro add remove hkind
    simp only [Coro.bind_eq, Coro.pure_eq]
    refine (Coro.wp_bind _ _).mpr (updateLabels_wp hW api inboxId item.remoteId add remove
      (fun _ hs => hs.1.inv) (fun _ _ hs hr => hs.rely hr) (h.act (p := .sendPatch _) rfl rfl)
      (fun s' result hs hanswer => ?_) fun s' e hs _ => hs.act (p := .losePatch) trivial rfl)
    have hown : Owes cfg R t (.setFlagCommit (inboxId, mdef.name) item add remove result) s' :=
      ⟨⟨mdef, rfl, hs.2⟩, ⟨⟨mdef, hkind, hs.2⟩, hanswer⟩⟩
    have hsame := Service.flaggedItem_same item (Service.flaggedLabels item add remove result)
    have hdone := hs.act hown rfl
    exact perform_bind_wp ⟨hown, rfl⟩ ⟨⟨hdone.1, hdone.2.same hsame⟩, hsame⟩
  rw [setFlag]
  split
  · rename_i hkind _
    cases value with
    | true => exact hpatch _ _ hkind
    | false => exact hpatch _ _ hkind
  · exact h

/-! ## Content -/

/-- A look into the cache. -/
theorem cacheGet_bind_wp {α : Type} {key : String} {k : Option Bytes → Svc α}
    {Q : α → Service → Prop} {E : Exc → Service → Prop}
    (hk : (k (s.cache.find key)).wp (svcLogic cfg R W t) Q E ((Act.cacheGet key).exec cfg t s)) :
    ((cacheGet key).bind k).wp (svcLogic cfg R W t) Q E s :=
  ⟨⟨trivial, rfl⟩, hk⟩

/-- A use of the cache changes nothing that is found. -/
theorem cacheGet_find (key k : String) :
    ((Act.cacheGet key).exec cfg t s).cache.find k = s.cache.find k :=
  ByteCache.find_moveToEnd s.cache key k

/-- The remembered size is looked up and put on record. -/
theorem recallSize_bind_wp {α : Type} {k : Option Nat → Svc α} {Q : α → Service → Prop}
    {E : Exc → Service → Prop} (h : Reads cfg R t m inboxId mdef item s)
    (hk : ∀ r s', Reads cfg R t m inboxId mdef item s' →
      s'.aux.recalled t = some (inboxId, item.remoteKey, r) →
      (k r).wp (svcLogic cfg R W t) Q E s') :
    ((recallSize inboxId item).bind k).wp (svcLogic cfg R W t) Q E s := by
  have hget := h.act (p := .cacheGet (ckey inboxId "size" item.remoteKey)) trivial rfl
  have ho : Owes cfg R t (.recalled inboxId item.remoteKey
      ((s.cache.find (ckey inboxId "size" item.remoteKey)).map sizeOfText))
      ((Act.cacheGet (ckey inboxId "size" item.remoteKey)).exec cfg t s) := by
    show _ = Option.map _ _
    rw [cacheGet_find]
  rw [recallSize]
  simp only [Coro.bind_eq, Coro.pure_eq]
  refine (Coro.wp_bind _ _).mpr (cacheGet_bind_wp (perform_bind_wp ⟨ho, rfl⟩ ?_))
  exact hk _ _ (hget.act ho rfl) (Function.update_self ..)

/-- Octets of the announced size are handed out and kept. -/
theorem keepRaw_wp {size : Nat} {data : Bytes} {r : Option Nat} (hkind : mdef.kind = .messages)
    (h : Reads cfg R t m inboxId mdef item s)
    (hr : s.aux.recalled t = some (inboxId, item.remoteKey, r)) (hsize : ∀ v, r = some v → v = size) :
    (keepRaw inboxId mdef item size data).wp (svcLogic cfg R W t)
      (fun _ => Reads cfg R t m inboxId mdef item) (fun _ => Reads cfg R t m inboxId mdef item) s := by
  rw [keepRaw]
  simp only [Coro.bind_eq, Coro.pure_eq, Coro.throw_eq]
  split
  · exact h
  · rename_i hlength
    have hlength : data.length = size := not_not.mp hlength
    let source := Source.raw inboxId item.remoteId size data
    let s₁ := (Act.obtained source).exec cfg t s
    have h₁ : Reads cfg R t m inboxId mdef item s₁ := h.act (p := .obtained source) hlength rfl
    have hsource : s₁.aux.source t = some source := Function.update_self ..
    have ho₁ : Owes cfg R t (.served inboxId mdef item data) s₁ :=
      ⟨h₁.2, .raw hkind size r hsource hr fun v hv => (hsize v hv).trans hlength.symm⟩
    let s₂ := (Act.served inboxId mdef item data).exec cfg t s₁
    have h₂ : Reads cfg R t m inboxId mdef item s₂ := h₁.act ho₁ rfl
    have hreported : data.length ∈ s₂.aux.reported (inboxId, item.remoteKey) := by
      show data.length ∈ (s₁.report inboxId mdef item data.length).aux.reported _
      simp only [Service.report, hkind, Function.update_self]
      exact List.mem_append_right _ (List.mem_singleton_self _)
    have ho₂ : Owes cfg R t (.cachePut (ckey inboxId "body" item.remoteKey) data) s₂ :=
      .raw inboxId mdef item size data hkind h₂.2 hsource hreported
    let s₃ := (Act.cachePut (ckey inboxId "body" item.remoteKey) data).exec cfg t s₂
    have h₃ : Reads cfg R t m inboxId mdef item s₃ := h₂.act ho₂ rfl
    have ho₃ : Owes cfg R t
        (.cachePut (ckey inboxId "size" item.remoteKey) (sizeText data.length)) s₃ :=
      .size inboxId mdef item data.length hkind h₃.2 hreported
    exact perform_bind_wp ⟨hlength, rfl⟩ (perform_bind_wp ⟨ho₁, rfl⟩ (perform_bind_wp ⟨ho₂, rfl⟩
      (perform_bind_wp ⟨ho₃, rfl⟩ (h₃.act ho₃ rfl))))

theorem rawBytes_wp (api : Client) (h : Reads cfg R t m inboxId mdef item s) :
    (rawBytes cfg api inboxId mdef item).wp (svcLogic cfg R W t)
      (fun _ => Reads cfg R t m inboxId mdef item) (fun _ => Reads cfg R t m inboxId mdef item) s := by
  have hbegin := h.act (p := .beginRead) trivial rfl
  have hget := hbegin.act (p := .cacheGet (ckey inboxId "body" item.remoteKey)) trivial rfl
  rw [rawBytes]
  simp only [Coro.bind_eq, Coro.pure_eq, Coro.throw_eq]
  refine perform_bind_wp ⟨trivial, rfl⟩ (cacheGet_bind_wp ?_)
  split
  · rename_i cached hfound
    have ho : Owes cfg R t (.served inboxId mdef item cached)
        ((Act.cacheGet (ckey inboxId "body" item.remoteKey)).exec cfg t
          (Act.beginRead.exec cfg t s)) :=
      ⟨hget.2, .cached ((cacheGet_find _ _).trans hfound)⟩
    exact perform_bind_wp ⟨ho, rfl⟩ (hget.act ho rfl)
  · split
    · rename_i hkind
      refine (Coro.wp_bind _ _).mpr (ask_wp (fun h => by cases h) fun s' hr a _ _ _ => ?_)
      have h' := hget.rely hr
      cases a with
      | error e => exact h'
      | ok full =>
        rw [Coro.ofExcept, Coro.wp_ret]
        split
        · exact h'
        · rename_i rendered hrendered
          split
          · exact h'
          · rename_i hkey
            have hkey : contentKey cfg item.remoteId rendered = item.remoteKey := not_not.mp hkey
            let source := Source.draft inboxId item.remoteId rendered
            let s₁ := (Act.obtained source).exec cfg t s'
            have h₁ : Reads cfg R t m inboxId mdef item s₁ :=
              h'.act (p := .obtained source) ⟨full, hrendered⟩ rfl
            have hsource : s₁.aux.source t = some source := Function.update_self ..
            have ho₁ : Owes cfg R t (.served inboxId mdef item rendered) s₁ :=
              ⟨h₁.2, .draft hkind hsource hkey⟩
            let s₂ := (Act.served inboxId mdef item rendered).exec cfg t s₁
            have h₂ : Reads cfg R t m inboxId mdef item s₂ := h₁.act ho₁ rfl
            have ho₂ : Owes cfg R t (.cachePut (ckey inboxId "body" item.remoteKey) rendered) s₂ :=
              .draft inboxId mdef item rendered hkind h₂.2 hsource hkey
            exact perform_bind_wp ⟨⟨full, hrendered⟩, rfl⟩ (perform_bind_wp ⟨ho₁, rfl⟩
              (perform_bind_wp ⟨ho₂, rfl⟩ (h₂.act ho₂ rfl)))
    · rename_i hkind
      refine (Coro.wp_bind _ _).mpr (ask_wp (fun h => by cases h) fun s' hr a _ _ _ => ?_)
      have h' := hget.rely hr
      cases a with
      | error e => exact h'
      | ok info =>
        rw [Coro.ofExcept, Coro.wp_ret]
        refine recallSize_bind_wp h' fun remembered s₁ h₁ hrecalled => ?_
        split
        · exact h₁
        · rename_i hagree
          refine (Coro.wp_bind _ _).mpr (ask_wp (fun h => by cases h) fun s₂ hr₂ a _ _ _ => ?_)
          have h₂ := h₁.rely hr₂
          have hrecalled₂ := (hr₂ h₁.1.inv).2.2.recalled.trans hrecalled
          cases a with
          | error e => exact h₂
          | ok data =>
            refine keepRaw_wp hkind h₂ hrecalled₂ fun v hv => ?_
            subst hv
            simpa using hagree

theorem sizeOf_wp (api : Client) (h : Reads cfg R t m inboxId mdef item s) :
    (sizeOf cfg api inboxId mdef item).wp (svcLogic cfg R W t)
      (fun _ => Reads cfg R t m inboxId mdef item) (fun _ => Reads cfg R t m inboxId mdef item) s := by
  have hbegin := h.act (p := .beginRead) trivial rfl
  have hget := hbegin.act (p := .cacheGet (ckey inboxId "body" item.remoteKey)) trivial rfl
  rw [sizeOf]
  simp only [Coro.bind_eq, Coro.pure_eq]
  refine perform_bind_wp ⟨trivial, rfl⟩ (cacheGet_bind_wp ?_)
  split
  · rename_i cached hfound
    have ho : Owes cfg R t (.sized inboxId mdef item cached.length)
        ((Act.cacheGet (ckey inboxId "body" item.remoteKey)).exec cfg t
          (Act.beginRead.exec cfg t s)) :=
      ⟨hget.2, .cached cached ((cacheGet_find _ _).trans hfound) rfl⟩
    exact perform_bind_wp ⟨ho, rfl⟩ (hget.act ho rfl)
  · split
    · exact (Coro.wp_bind _ _).mpr
        (Coro.wp_mono (fun _ _ hs => hs) (fun _ _ hs => hs) (rawBytes_wp api hget))
    · rename_i hkind
      refine recallSize_bind_wp hget fun remembered s₁ h₁ hrecalled => ?_
      split
      · rename_i n
        have ho : Owes cfg R t (.sized inboxId mdef item n) s₁ :=
          ⟨h₁.2, .asked hkind _ hrecalled fun v hv => (Option.some.inj hv).symm⟩
        exact perform_bind_wp ⟨ho, rfl⟩ (h₁.act ho rfl)
      · refine (Coro.wp_bind _ _).mpr (ask_wp (fun h => by cases h) fun s₂ hr₂ a _ _ _ => ?_)
        have h₂ := h₁.rely hr₂
        have hrecalled₂ := (hr₂ h₁.1.inv).2.2.recalled.trans hrecalled
        cases a with
        | error e => exact h₂
        | ok info =>
          rw [Coro.ofExcept, Coro.wp_ret]
          have ho : Owes cfg R t (.sized inboxId mdef item info.size) s₂ :=
            ⟨h₂.2, .asked hkind none hrecalled₂ (by simp)⟩
          let s₃ := (Act.sized inboxId mdef item info.size).exec cfg t s₂
          have h₃ : Reads cfg R t m inboxId mdef item s₃ := h₂.act ho rfl
          have hreported : info.size ∈ s₃.aux.reported (inboxId, item.remoteKey) := by
            show info.size ∈ (s₂.report inboxId mdef item info.size).aux.reported _
            simp only [Service.report, hkind, Function.update_self]
            exact List.mem_append_right _ (List.mem_singleton_self _)
          have hput : Owes cfg R t
              (.cachePut (ckey inboxId "size" item.remoteKey) (sizeText info.size)) s₃ :=
            .size inboxId mdef item info.size hkind h₃.2 hreported
          exact perform_bind_wp ⟨ho, rfl⟩ (perform_bind_wp ⟨hput, rfl⟩ (h₃.act hput rfl))

/-! ## Tasks -/

/-- The task `n` is there, with its job. -/
def TaskRuns (cfg : Config) (R : Regime) (n : Nat) (job : Job) (s : Service) : Prop :=
  Inv cfg R s ∧ ∃ task, s.tasks n = some task ∧ task.job = job

theorem TaskRuns.act {n : Nat} {job : Job} {p : Act} (h : TaskRuns cfg R n job s)
    (ho : Owes cfg R t p s) : TaskRuns cfg R n job (p.exec cfg t s) := by
  obtain ⟨hi, task, ht, hjob⟩ := h
  obtain ⟨task', ht', hjob', _⟩ := (hi.evolve t p).tasks n task ht
  exact ⟨hi.step ho, task', ht', hjob'.trans hjob⟩

theorem TaskRuns.rely {n : Nat} {job : Job} (h : TaskRuns cfg R n job s)
    (hr : Rely cfg R t s s') : TaskRuns cfg R n job s' := by
  obtain ⟨hi, task, ht, hjob⟩ := h
  obtain ⟨hi', hev, _⟩ := hr hi
  obtain ⟨task', ht', hjob', _⟩ := hev.tasks n task ht
  exact ⟨hi', task', ht', hjob'.trans hjob⟩

/-- A task that is started runs its listing and ends with a result that may be
taken for one. -/
theorem runTask_wp {n : Nat} {job : Job} (hi : Inv cfg R s)
    (hn : ∃ task, s.tasks n = some task ∧ task.job = job ∧ task.state = .queued) :
    (runTask cfg n job).wp (svcLogic cfg R W (.task n)) (fun _ => Inv cfg R)
      (fun _ => Inv cfg R) s := by
  obtain ⟨task, htask, hjob, hqueued⟩ := hn
  have ho : Owes cfg R (.task n) (.beginTask n) s :=
    ⟨rfl, by rw [Service.taskState, htask, Option.map_some, hqueued]⟩
  have hbegin : Stands cfg R (.task n) (s.aux.mutations (.task n))
      ((Act.beginTask n).exec cfg (.task n) s) := by
    refine ⟨_, hi.step ho, rfl, rfl, fun m hm => ?_⟩
    cases hm
    exact ⟨{ task with state := .running }, by simp [Act.exec, Service.setTask, htask], rfl⟩
  have hbegun : ∃ task, ((Act.beginTask n).exec cfg (.task n) s).tasks n = some task ∧
      task.job = job :=
    ⟨{ task with state := .running }, by simp [Act.exec, Service.setTask, htask], hjob⟩
  unfold runTask
  simp only [Coro.bind_eq, Coro.attempt]
  refine perform_bind_wp ⟨ho, rfl⟩ ((Coro.wp_bind _ _).mpr ((Coro.wp_handle _ _).mpr
    ((Coro.wp_bind _ _).mpr ?_)))
  have hfinish : ∀ r s, (∃ m, Stands cfg R (.task n) m s) →
      (∀ snap, r = .ok snap → (snap.Valid s.store ∧ snap.Shown s) ∧ ∀ task, s.tasks n = some task →
        snap.key = task.job.key ∧ ∀ key, task.job.lists = some key → task.no = some snap.listing) →
      (perform (.finishTask n r)).wp (svcLogic cfg R W (.task n)) (fun _ => Inv cfg R)
        (fun _ => Inv cfg R) s := by
    rintro r s ⟨_, _, hat⟩ hr
    obtain ⟨task, ht, hrun⟩ := hat.running n rfl
    have ho : Owes cfg R (.task n) (.finishTask n r) s :=
      ⟨rfl, by rw [Service.taskState, ht, Option.map_some, hrun], hr⟩
    exact ⟨⟨ho, rfl⟩, hat.inv.step ho⟩
  have hframe := fun {Q : Snapshot → Service → Prop} {E : Exc → Service → Prop} {x : Svc Snapshot} =>
    Coro.wp_frame (L := svcLogic cfg R W (.task n)) (x := x) (Q := Q) (E := E)
      (J := TaskRuns cfg R n job) (s := (Act.beginTask n).exec cfg (.task n) s)
      (fun p s hJ hg => hJ.act hg.1) (fun s s' hJ hr => hJ.rely hr) ⟨hbegin.inv, hbegun⟩
  cases job with
  | listing api inboxId mdef =>
    obtain ⟨since, hat⟩ := hbegin
    have hmdef := (hi.tasks n task htask).known api inboxId mdef hjob
    refine Coro.wp_mono (fun snap s hs => ?_) (fun e s hs => ?_)
      (hframe (doSync_wp (b := 0) api hat (Nat.zero_le _) hmdef))
    · obtain ⟨hlisted, _, task', ht', hjob'⟩ := hs
      refine hfinish _ s ⟨_, _, hlisted.toAt⟩ fun snap' he => ?_
      cases he
      refine ⟨⟨hlisted.fresh.valid, hlisted.fresh.shown⟩, fun task₂ ht₂ => ?_⟩
      rw [ht'] at ht₂
      cases ht₂
      obtain ⟨task₃, ht₃, hno⟩ := hlisted.own n rfl
      rw [ht'] at ht₃
      cases ht₃
      exact ⟨by rw [hjob']; exact hlisted.fresh.key_eq, fun _ _ => hno⟩
    · exact hfinish _ s ⟨_, _, hs.1⟩ (by simp)
  | resync api inboxId =>
    refine Coro.wp_mono (fun snap s hs => ?_) (fun e s hs => ?_)
      (hframe (syncForced_wp api drafts.name hbegin))
    · obtain ⟨⟨⟨since, hat⟩, hvalid, mdef, hlookup, hkey⟩, _, task', ht', hjob'⟩ := hs
      refine hfinish _ s ⟨_, _, hat⟩ fun snap' he => ?_
      cases he
      refine ⟨hvalid, fun task₂ ht₂ => ?_⟩
      rw [ht'] at ht₂
      cases ht₂
      have hdrafts : mdef = drafts := by
        rw [show lookupMailbox drafts.name = some drafts from by decide +kernel] at hlookup
        exact (Option.some.inj hlookup).symm
      rw [hjob', hkey, hdrafts]
      exact ⟨rfl, (fun _ h => by cases h)⟩
    · obtain ⟨⟨since, hat⟩, _⟩ := hs
      exact hfinish _ s ⟨_, _, hat⟩ (by simp)

end Mailbox
end ImapGateway
