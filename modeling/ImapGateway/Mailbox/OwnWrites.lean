/-
What a label write shows afterwards.

`set_flag` holds the labels it leaves over whatever listings report.  While the hold lasts,
every listing that collects the message takes the labels held, so only what was collected or
pinned before the write can still show older ones.
-/
import ImapGateway.Mailbox.Announced
import ImapGateway.Mailbox.Flags
import ImapGateway.Mailbox.Holds

namespace ImapGateway
namespace Mailbox

open Async

/-- The message an action holds labels for. -/
def Act.holdsFor : Act → Option (String × String)
  | copyItem inboxId item _ => some (inboxId, item.remoteId)
  | setFlagCommit key item _ _ _ => some (key.1, item.remoteId)
  | expungeCommit inboxId item _ => some (inboxId, item.remoteId)
  | _ => none

/-- A listing reports the message with these labels. -/
def Happening.ListsAs (x : Happening) (m : String × String) (labels : Labels) : Prop :=
  ∃ msg l, x.action = .collectMessage msg ∧ x.before.listings x.tid = some l ∧
    orEmpty msg.messageId ∉ l.seen ∧ (l.inboxId, orEmpty msg.messageId) = m ∧
      labelSet msg.labels = labels

/-- Nothing between the write `w` and `x` ends the hold: nobody else writes the labels of the
message, it is young enough, and no listing has agreed with it. -/
structure HoldLasts (w x : Happening) (between : List Happening) (m : String × String)
    (labels : Labels) : Prop where
  alone : ∀ y ∈ between, y.action.holdsFor ≠ some m
  young : x.before.time ≤ w.before.time + overrideTtl
  unlisted : ∀ y ∈ between, ¬y.ListsAs m labels

/-- What `x` publishes holds no copy of the message with other flags from before the write `w`:
neither collected by the listing nor, where the listing lacks the message, pinned. -/
structure NoOlderCopy (w x : Happening) (key : Key) (remoteKey : String) (flags : Flags) :
    Prop where
  collected : ∀ l l₀, x.before.listings x.tid = some l → w.before.listings x.tid = some l₀ →
    l₀.no = l.no → ∀ e ∈ l₀.entries, e.remoteKey = remoteKey → e.item.flags = flags
  pinned : ∀ l, x.before.listings x.tid = some l → remoteKey ∉ l.entries.map (·.remoteKey) →
    ∀ q ∈ x.before.pinned key, q.remoteKey = remoteKey → q.entry.item.flags = flags

/-- After `set_flag`, as long as the hold lasts, every snapshot of the view that takes no older
copy of the message shows its UID with the flags that were set. -/
def OwnWritesShown (cfg : Config) (hs : List Happening) : Prop :=
  ∀ late x between w older key item add remove result snap,
    hs = late ++ x :: (between ++ w :: older) →
    w.action = .setFlagCommit key item add remove result →
    x.Publishes cfg key snap →
    HoldLasts w x between (key.1, item.remoteId) (Service.flaggedLabels item add remove result) →
    NoOlderCopy w x key item.remoteKey
      (messageFlags (Service.flaggedLabels item add remove result)) →
    ∀ i ∈ snap.items, i.uid = item.uid →
      i.flags = messageFlags (Service.flaggedLabels item add remove result)

section

variable {cfg : Config} {R : Regime} {s s' s₀ : Service} {hs : List Happening} {t u : Tid} {p : Act}
  {m : String × String} {x : Happening} {labels : Labels} {expires : Nat}

/-! ## The hold -/

/-- A hold that is young and that no listing agrees with stays until the next write. -/
theorem labelOverrides_kept (h : s.store.Ok)
    (hhold : s.labelOverrides m = some ⟨expires, labels⟩) (hyoung : s.time ≤ expires)
    (halone : p.holdsFor ≠ some m) (hunlisted : ¬Happening.ListsAs ⟨t, p, s⟩ m labels) :
    (p.exec cfg t s).labelOverrides m = some ⟨expires, labels⟩ := by
  cases p with
  | copyItem inboxId item result =>
    rw [(Act.exec_copyItem cfg t h inboxId item result).holds, Function.update_of_ne, hhold]
    exact fun heq => halone (congrArg some heq.symm)
  | setFlagCommit key item add remove result =>
    rw [(Act.exec_setFlagCommit cfg t s key item add remove result).holds, Function.update_of_ne,
      hhold]
    exact fun heq => halone (congrArg some heq.symm)
  | expungeCommit inboxId item result =>
    rw [(Act.exec_expungeCommit cfg t s inboxId item result).holds, Function.update_of_ne, hhold]
    exact fun heq => halone (congrArg some heq.symm)
  | applyPatch =>
    rcases s.applyPatch_cases t with heq | ⟨q, labels', _, _, _, heq⟩
    · rw [Act.exec, heq, hhold]
    · rw [Act.exec, heq]
      exact hhold
  | collectMessage msg =>
    rcases Service.collectMessage_cases cfg s t msg with heq | ⟨l, hl, hseen, heq⟩
    · rw [Act.exec, heq, hhold]
    · rw [Act.exec, heq]
      show (s.effectiveLabels l.inboxId (orEmpty msg.messageId) (labelSet msg.labels)).2 m = _
      by_cases hm : (l.inboxId, orEmpty msg.messageId) = m
      · have hne : labelSet msg.labels ≠ labels := fun heq =>
          hunlisted ⟨msg, l, rfl, hl, hseen, hm, heq⟩
        have hkept : ¬(labelSet msg.labels = labels ∨ expires < s.time) := by
          rintro (heq | hlt)
          · exact hne heq
          · omega
        rw [Service.effectiveLabels, hm, hhold]
        simp only [if_neg hkept, hhold]
      · rw [Service.effectiveLabels]
        split
        · exact hhold
        · split
          · exact (Function.update_of_ne (Ne.symm hm) ..).trans hhold
          · exact hhold
  | sendPatch q => exact hhold
  | losePatch => exact hhold
  | relabel => exact hhold
  | _ =>
    rw [(Act.exec_patchFree cfg t h rfl).2, hhold]

/-- The labels shown while the hold lasts. -/
theorem effectiveLabels_held {i id : String}
    (hhold : s.labelOverrides (i, id) = some ⟨expires, labels⟩) (hyoung : s.time ≤ expires)
    {listed : Labels} (hne : listed ≠ labels) : (s.effectiveLabels i id listed).1 = labels := by
  have hkept : ¬(listed = labels ∨ expires < s.time) := by
    rintro (heq | hlt)
    · exact hne heq
    · omega
  rw [Service.effectiveLabels, hhold]
  simp only [if_neg hkept]

/-! ## What listings have collected -/

/-- A listing keeps its number. -/
theorem Act.exec_no (h : s.store.Ok) {l l' : Listing} (hl' : (p.exec cfg t s).listings u = some l')
    (hl : s.listings u = some l) (he : l'.entries ≠ []) : l'.no = l.no := by
  have same : ∀ {f : Option Listing}, (p.exec cfg t s).listings = Function.update s.listings t f →
      (∀ l₁, f = some l₁ → u = t → l₁.no = l.no) → l'.no = l.no := by
    intro f hf hno
    rw [hf] at hl'
    by_cases hu : u = t
    · rw [hu, Function.update_self] at hl'
      exact hno l' hl' hu
    · rw [Function.update_of_ne hu, hl, Option.some.injEq] at hl'
      rw [hl']
  cases Act.exec_listingStep cfg t p h with
  | start inboxId mdef _ listings _ =>
    rw [listings] at hl'
    by_cases hu : u = t
    · rw [hu, Function.update_self, Option.some.injEq] at hl'
      rw [← hl'] at he
      exact absurd rfl he
    · rw [Function.update_of_ne hu, hl, Option.some.injEq] at hl'
      rw [hl']
  | extend l₀ seen entries _ hl₀ listings _ =>
    apply same listings
    intro l₁ heq hu
    rw [hu, hl₀, Option.some.injEq] at hl
    rw [← Option.some.inj heq, hl]
  | stop _ listings _ =>
    apply same listings
    intro l₁ heq
    cases heq
  | quiet _ listings _ =>
    rw [listings, hl, Option.some.injEq] at hl'
    rw [hl']

/-- The labels are held, and what listings have collected of the message since `s₀` has them. -/
structure HeldSince (s₀ : Service) (m : String × String) (labels : Labels) (expires : Nat)
    (s : Service) : Prop where
  hold : s.labelOverrides m = some ⟨expires, labels⟩
  entries : ∀ u l, s.listings u = some l → l.inboxId = m.1 → l.mdef.kind = .messages →
    ∀ e ∈ l.entries, e.remoteKey = m.2 → e.item.flags = messageFlags labels ∨
      ∃ l₀, s₀.listings u = some l₀ ∧ l₀.no = l.no ∧ e ∈ l₀.entries

/-- What a listing adds while the hold lasts has the labels held. -/
theorem Act.adds_held {l : Listing} {e : Entry} (ho : Owes cfg R t p s)
    (hhold : s.labelOverrides m = some ⟨expires, labels⟩) (hyoung : s.time ≤ expires)
    (hunlisted : ¬Happening.ListsAs ⟨t, p, s⟩ m labels) (hl : s.listings t = some l)
    (hinbox : l.inboxId = m.1) (hkind : l.mdef.kind = .messages)
    (hseen : ∀ msg, p = .collectMessage msg → orEmpty msg.messageId ∉ l.seen)
    (he : e ∈ p.adds cfg s l) (hkey : e.remoteKey = m.2) :
    e.item.flags = messageFlags labels := by
  cases p with
  | collectMessage msg =>
    simp only [Act.adds, Service.messageEntries] at he
    split at he
    · cases he
    · rw [List.mem_singleton.mp he] at hkey ⊢
      have hm : (l.inboxId, orEmpty msg.messageId) = m := Prod.ext hinbox hkey
      have hne : labelSet msg.labels ≠ labels := fun heq =>
        hunlisted ⟨msg, l, rfl, hl, hseen msg rfl, hm, heq⟩
      rw [← hm] at hhold
      show messageFlags (s.effectiveLabels l.inboxId (orEmpty msg.messageId)
        (labelSet msg.labels)).1 = _
      rw [effectiveLabels_held hhold hyoung hne]
  | collectDraft d rendered =>
    have hdrafts : l.mdef.kind = .drafts := (ho l hl).1.1
    rw [hkind] at hdrafts
    cases hdrafts
  | _ => cases he

theorem HeldSince.step (h : HeldSince s₀ m labels expires s) (hi : Inv cfg R s)
    (ho : Owes cfg R t p s) (hyoung : s.time ≤ expires) (halone : p.holdsFor ≠ some m)
    (hunlisted : ¬Happening.ListsAs ⟨t, p, s⟩ m labels) :
    HeldSince s₀ m labels expires (p.exec cfg t s) where
  hold := labelOverrides_kept hi.store h.hold hyoung halone hunlisted
  entries u l' hl' hinbox hkind e he hkey := by
    obtain ⟨l, hl, hid, hdef, hold⟩ := Act.exec_entries cfg t p hi.store hl' he
    have hno : l'.no = l.no := Act.exec_no hi.store hl' hl (List.ne_nil_of_mem he)
    by_cases hin : e ∈ l.entries
    · rw [hno]
      exact h.entries u l hl (hid.trans hinbox) (hdef ▸ hkind) e hin hkey
    · left
      have hnew : u = t ∧ e ∈ p.adds cfg s l := hold.resolve_left hin
      obtain ⟨rfl, hadds⟩ := hnew
      apply Act.adds_held ho h.hold hyoung hunlisted hl (hid.trans hinbox) (hdef ▸ hkind) _ hadds
        hkey
      rintro msg rfl hseen
      -- A message seen before adds nothing.
      have hsame : s.collectMessage cfg u msg = s := by
        simp [Service.collectMessage, hl, hseen]
      rw [Act.exec, hsame, hl, Option.some.injEq] at hl'
      exact hin (hl' ▸ he)

/-! ## Histories -/

theorem Conducted.time_mono (h : Conducted cfg R s₀ hs s) : s₀.time ≤ s.time :=
  (h.always (P := fun s => s₀.time ≤ s.time) (Nat.le_refl _)
    fun x _ _ hle => hle.trans (Act.exec_time cfg x.tid x.action x.before)).2

theorem Conducted.heldSince {s₁ : Service} (h : Conducted cfg R s₁ hs s)
    (h₁ : HeldSince s₀ m labels expires s₁) (hyoung : s.time ≤ expires)
    (halone : ∀ y ∈ hs, y.action.holdsFor ≠ some m) (hunlisted : ∀ y ∈ hs, ¬y.ListsAs m labels) :
    HeldSince s₀ m labels expires s := by
  apply (h.always (P := HeldSince s₀ m labels expires) h₁ _).2
  intro y hy hi hheld
  have hle : y.before.time ≤ s.time := by
    obtain ⟨newer, older, rfl⟩ := List.append_of_mem hy
    exact (Act.exec_time cfg y.tid y.action y.before).trans h.after.time_mono
  exact hheld.step hi (h.owed y hy) (hle.trans hyoung) (halone y hy) (hunlisted y hy)

/-- The labels are held right after the write. -/
theorem heldSince_setFlagCommit (h : s.store.Ok) (key : Key) (item : Item)
    (add remove : List String) (result : PatchResult) :
    HeldSince s (key.1, item.remoteId) (Service.flaggedLabels item add remove result)
      (s.time + overrideTtl) ((Act.setFlagCommit key item add remove result).exec cfg t s) where
  hold := by
    rw [(Act.exec_setFlagCommit cfg t s key item add remove result).holds, Function.update_self]
  entries u l hl _ _ e he _ := by
    right
    cases Act.exec_listingStep cfg t (.setFlagCommit key item add remove result) h with
    | start _ _ hp => cases hp
    | extend _ _ _ hp => cases hp
    | stop hp => rcases hp with hp | hp <;> cases hp
    | quiet _ listings _ =>
      rw [listings] at hl
      exact ⟨l, hl, rfl, he⟩

/-! ## What is published -/

/-- A flag is only ever set on a message. -/
theorem flagged_kind {key : Key} {item : Item} {add remove : List String} {result : PatchResult}
    (hn : Named cfg s) (ho : Owes cfg R t (.setFlagCommit key item add remove result) s) :
    kindAt key = .messages ∧ item.remoteKey = item.remoteId ∧ s.HasShown key item := by
  obtain ⟨⟨mdef, hname, hknown⟩, ⟨_, hkind, hmessage⟩, _⟩ := ho
  have hkey : item.remoteKey = item.remoteId := hn.message hkind hmessage
  have hshown : s.HasShown key item := by
    have hshown := hknown.shown
    rw [hname] at hshown
    exact hshown
  refine ⟨?_, hkey, hshown⟩
  obtain ⟨x, hx, hxkey, hsame⟩ := hshown
  have hkeyed := (hn.shown x hx).same hsame
  rw [hxkey] at hkeyed
  cases hk : kindAt key with
  | messages => rfl
  | drafts =>
    rw [hk] at hkeyed
    obtain ⟨rendered, hdraft⟩ := hkeyed
    -- The key of a draft is longer than its id.
    have hlength := congrArg String.length (hkey.symm.trans hdraft)
    rw [contentKey, String.length_append, String.length_append, cfg.digest_length] at hlength
    omega

theorem Conducted.ownWritesShown (h : Conducted cfg R s₀ hs s) (h₀ : Blank s₀) :
    OwnWritesShown cfg hs := by
  rintro late x between w older key item add remove result snap rfl hw hpub hlasts holder i hi huid
  have hx := h.before
  have hwb := hx.before
  have howed := hx.owed w (by simp)
  rw [hw] at howed
  obtain ⟨hkind, hremote, y, hy, hykey, hsame⟩ := flagged_kind (hwb.named h₀) howed
  -- The hold is there when `x` publishes.
  have hheld : HeldSince w.before (key.1, item.remoteId)
      (Service.flaggedLabels item add remove result) (w.before.time + overrideTtl) x.before := by
    apply hx.after.heldSince _ hlasts.young hlasts.alone hlasts.unlisted
    rw [Happening.after, hw]
    exact heldSince_setFlagCommit hwb.inv.store key item add remove result
  obtain ⟨l, v, hl, rfl, rfl, hrec⟩ := hpub.spec hx.inv.store
  obtain ⟨e, u, he, hu, rfl⟩ := (mem_publication hrec).mp hi
  -- The UID names the message that was flagged.
  have hekey : e.remoteKey = item.remoteKey := by
    have hshown : y ∈ (x.after cfg).aux.shown :=
      (hx.inv.evolve x.tid x.action).shown y
        (hx.after.evolve.shown y ((hwb.inv.evolve w.tid w.action).shown y hy))
    have hbound : Bound (x.after cfg) := (hx.bound h₀).step hx.inv (hx.named h₀)
    have hlive : (x.after cfg).store.liveUid y.1.1 y.1.2 e.remoteKey = some y.2.uid := by
      have huid : u = item.uid := huid
      rw [hykey, hsame.uid, ← huid]
      exact hu
    exact ((hbound y hshown).2 _ hlive).trans hsame.remoteKey
  show e.item.flags = _
  rcases mem_collected.mp he with he | ⟨q, hq, hmissing, _, rfl⟩
  · have hkindl : l.mdef.kind = .messages := by
      rw [← hkind]
      exact (kindAt_eq (hx.inv.listings _ l hl).known l.inboxId).symm
    rcases hheld.entries _ l hl rfl hkindl e he (hekey.trans hremote) with hflags | hold
    · exact hflags
    · obtain ⟨l₀, hl₀, hno, hin⟩ := hold
      exact holder.collected l l₀ hl hl₀ hno e hin hekey
  · have hq' : q.remoteKey = item.remoteKey :=
      ((hx.inv.pins _).labelled q hq).symm.trans hekey
    exact holder.pinned l hl (hq' ▸ hmissing) q hq hq'

end

end Mailbox
end ImapGateway
